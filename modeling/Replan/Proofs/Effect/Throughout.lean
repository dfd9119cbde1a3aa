import Replan.Proofs.Effect.Expansion

set_option autoImplicit false

namespace Replan.Effect

variable {R : Type}

def Throughout (P : Effect R → Prop) (e : Effect R) : Prop := ∀ node ∈ e.nodes, P node

-- Nothing is said of conjunctions and choices, and nothing of what stands under a quantifier or a condition.
structure Shallow (P : Effect R → Prop) : Prop where
  skip : P skip
  conj : ∀ parts, P (conj parts)
  forAll : ∀ vars body other, P (forAll vars body) → P (forAll vars other)
  when : ∀ condition body other, P (when condition body) → P (when condition other)
  probabilistic : ∀ outcomes, P (probabilistic outcomes)

variable {P : Effect R → Prop}

theorem throughout_for_all (vars : List Term) (body : Effect R) :
    Throughout P (forAll vars body) ↔ P (forAll vars body) ∧ Throughout P body := by
  simp only [Throughout, mem_nodes_for_all, forall_eq_or_imp]

theorem throughout_when (condition : Query R) (body : Effect R) :
    Throughout P (when condition body) ↔ P (when condition body) ∧ Throughout P body := by
  simp only [Throughout, mem_nodes_when, forall_eq_or_imp]

theorem throughout_assign (op : AssignOp) (fluent : Atom) (value : Query R) :
    Throughout P (assign op fluent value) ↔ P (assign op fluent value) := by
  simp only [Throughout, nodes, List.forall_mem_singleton]

section Shallow

variable (shallow : Shallow P)

include shallow

theorem throughout_skip : Throughout P skip := List.forall_mem_singleton.mpr shallow.skip

theorem throughout_conj (parts : List (Effect R)) : Throughout P (conj parts) ↔ ∀ e ∈ parts, Throughout P e := by
  simp only [Throughout, mem_nodes_conj]
  constructor
  · exact fun whole e member node inside => whole node (.inr ⟨e, member, inside⟩)
  · rintro each node (rfl | ⟨e, member, inside⟩)
    · exact shallow.conj parts
    · exact each e member node inside

theorem throughout_choice (outcomes : List (R × Effect R)) :
    Throughout P (probabilistic outcomes) ↔ ∀ outcome ∈ outcomes, Throughout P outcome.2 := by
  simp only [Throughout, mem_nodes_choice]
  constructor
  · exact fun whole outcome member node inside => whole node (.inr ⟨outcome, member, inside⟩)
  · rintro each node (rfl | ⟨outcome, member, inside⟩)
    · exact shallow.probabilistic outcomes
    · exact each outcome member node inside

theorem map_assignments_throughout (f : AssignOp → Atom → Query R → Effect R)
    (each : ∀ op fluent value, P (assign op fluent value) → Throughout P (f op fluent value)) (e : Effect R)
    (holds : Throughout P e) : Throughout P (e.mapAssignments f) := by
  induction e with
  | skip | add | delete => exact holds
  | conj parts ih =>
      rw [mapAssignments, map_assignments_list, throughout_conj shallow, List.forall_mem_map]
      exact fun e member => ih e member ((throughout_conj shallow parts).mp holds e member)
  | forAll vars body ih =>
      obtain ⟨here, inside⟩ := (throughout_for_all vars body).mp holds
      exact (throughout_for_all vars _).mpr ⟨shallow.forAll vars body _ here, ih inside⟩
  | when condition body ih =>
      obtain ⟨here, inside⟩ := (throughout_when condition body).mp holds
      exact (throughout_when condition _).mpr ⟨shallow.when condition body _ here, ih inside⟩
  | assign op fluent value => exact each op fluent value ((throughout_assign op fluent value).mp holds)
  | probabilistic outcomes ih =>
      rw [mapAssignments, map_assignments_outcomes, throughout_choice shallow, List.forall_mem_map]
      exact fun outcome member => ih outcome member ((throughout_choice shallow outcomes).mp holds outcome member)

variable [Number R] (conditions : ∀ condition body, P (when condition body) → P (when condition.simplify body))
  (values : ∀ op fluent value, P (assign op fluent value) → P (assign op fluent value.simplify))

include conditions values

theorem throughout_compositional : Compositional (Throughout P) where
  skip := throughout_skip shallow
  conj := throughout_conj shallow
  forAll vars body holds := by
    obtain ⟨here, inside⟩ := (throughout_for_all vars body).mp holds
    exact ⟨inside, fun other below => (throughout_for_all vars other).mpr ⟨shallow.forAll vars body other here, below⟩⟩
  when condition body holds := by
    obtain ⟨here, inside⟩ := (throughout_when condition body).mp holds
    refine ⟨inside, fun other below => (throughout_when _ other).mpr ⟨?_, below⟩⟩
    exact shallow.when condition.simplify body other (conditions condition body here)
  assign op fluent value holds :=
    (throughout_assign op fluent _).mpr (values op fluent value ((throughout_assign op fluent value).mp holds))
  probabilistic outcomes holds :=
    ⟨(throughout_choice shallow outcomes).mp holds, fun kept => (throughout_choice shallow kept).mpr⟩

theorem throughout_expands : Expands (Throughout P) (Throughout P) where
  parts es := (throughout_conj shallow es).mp
  choices outcomes := (throughout_choice shallow outcomes).mp
  certain _ holds _ := holds
  nothing := throughout_skip shallow
  joined es each :=
    simplify_keeps (throughout_compositional shallow conditions values) _ ((throughout_conj shallow es).mpr each)

end Shallow

end Replan.Effect
