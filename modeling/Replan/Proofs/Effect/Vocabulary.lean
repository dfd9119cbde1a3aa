import Replan.Proofs.Effect.Structure
import Replan.Proofs.Query.Vocabulary
import Replan.Proofs.Results

set_option autoImplicit false

namespace Replan.Effect

open Results

variable {R : Type}

mutual
def Within (v : Vocabulary R) : Effect R → Prop
  | skip => True
  | add fact => v.fact fact
  | delete fact => v.fact fact
  | conj parts => WithinList v parts
  | forAll vars body => v.forAll vars ∧ Within v body
  | when condition body => condition.Within v ∧ Within v body
  | assign op fluent value => v.assigned op fluent ∧ v.operand value ∧ value.Within v
  | probabilistic outcomes => v.chance ∧ WithinOutcomes v outcomes

def WithinList (v : Vocabulary R) : List (Effect R) → Prop
  | [] => True
  | e :: es => Within v e ∧ WithinList v es

def WithinOutcomes (v : Vocabulary R) : List (R × Effect R) → Prop
  | [] => True
  | (_, e) :: rest => Within v e ∧ WithinOutcomes v rest
end

theorem within_list (v : Vocabulary R) (es : List (Effect R)) :
    WithinList v es ↔ ∀ e ∈ es, Within v e := by
  induction es with
  | nil => simp [WithinList]
  | cons e es ih => simp [WithinList, ih]

theorem within_outcomes (v : Vocabulary R) (outcomes : List (R × Effect R)) :
    WithinOutcomes v outcomes ↔ ∀ outcome ∈ outcomes, Within v outcome.2 := by
  induction outcomes with
  | nil => simp [WithinOutcomes]
  | cons outcome outcomes ih =>
      rw [WithinOutcomes, ih, List.forall_mem_cons]

theorem within_below (v w : Vocabulary R) (below : v.Below w)
    (assigned : ∀ op a, v.assigned op a → w.assigned op a) (chance : v.chance → w.chance) (e : Effect R)
    (within : e.Within v) : e.Within w := by
  induction e with
  | skip => trivial
  | add a => exact below.fact a within
  | delete a => exact below.fact a within
  | conj parts ih =>
      exact (within_list w parts).mpr fun e member => ih e member ((within_list v parts).mp within e member)
  | forAll vars body ih => exact ⟨below.forAll vars within.1, ih within.2⟩
  | when condition body ih => exact ⟨Query.within_below v w below condition within.1, ih within.2⟩
  | assign op fluent value =>
      obtain ⟨target, operand, reads⟩ := within
      exact ⟨assigned op fluent target, below.operand value operand,
        Query.within_below v w below value reads⟩
  | probabilistic outcomes ih =>
      refine ⟨chance within.1, (within_outcomes w outcomes).mpr fun outcome member => ?_⟩
      exact ih outcome member ((within_outcomes v outcomes).mp within.2 outcome member)

theorem within_anything (e : Effect R) : e.Within (Vocabulary.anything R) := by
  induction e with
  | conj parts ih => exact (within_list _ parts).mpr ih
  | forAll vars body ih => exact ⟨trivial, ih⟩
  | when condition body ih => exact ⟨Query.within_anything condition, ih⟩
  | assign op fluent value => exact ⟨trivial, trivial, Query.within_anything value⟩
  | probabilistic outcomes ih => exact ⟨trivial, (within_outcomes _ outcomes).mpr ih⟩
  | skip | add | delete => trivial

theorem within_both (v w : Vocabulary R) (e : Effect R) (first : e.Within v) (second : e.Within w) :
    e.Within (v.both w) := by
  induction e with
  | skip => trivial
  | add | delete => exact ⟨first, second⟩
  | conj parts ih =>
      exact (within_list _ parts).mpr fun e member =>
        ih e member ((within_list v parts).mp first e member) ((within_list w parts).mp second e member)
  | forAll vars body ih => exact ⟨⟨first.1, second.1⟩, ih first.2 second.2⟩
  | when condition body ih =>
      exact ⟨Query.within_both v w condition first.1 second.1, ih first.2 second.2⟩
  | assign op fluent value =>
      exact ⟨⟨first.1, second.1⟩, ⟨first.2.1, second.2.1⟩, Query.within_both v w value first.2.2 second.2.2⟩
  | probabilistic outcomes ih =>
      refine ⟨⟨first.1, second.1⟩, (within_outcomes _ outcomes).mpr fun outcome member => ?_⟩
      exact ih outcome member ((within_outcomes v outcomes).mp first.2 outcome member)
        ((within_outcomes w outcomes).mp second.2 outcome member)

theorem within_of_certain (v : Vocabulary R) (e : Effect R) (within : e.Within v.certain) : e.Within v :=
  within_below v.certain v v.certain_below (fun _ _ => id) False.elim e within

theorem both_certain_left (v w : Vocabulary R) (e : Effect R) (within : e.Within (v.both w).certain) :
    e.Within v.certain := by
  have below : (v.both w).certain.Below v.certain :=
    ⟨fun _ => And.left, fun _ => And.left, fun _ => And.left, fun _ => And.left, fun _ => And.left⟩
  exact within_below _ _ below (fun _ _ => And.left) id e within

theorem both_certain_right (v w : Vocabulary R) (e : Effect R) (within : e.Within (v.both w).certain) :
    e.Within w.certain := by
  have below : (v.both w).certain.Below w.certain :=
    ⟨fun _ => And.right, fun _ => And.right, fun _ => And.right, fun _ => And.right, fun _ => And.right⟩
  exact within_below _ _ below (fun _ _ => And.right) id e within

theorem certain_within (v : Vocabulary R) (e : Effect R) (within : e.Within v)
    (deterministic : e.hasProbabilistic = false) : e.Within v.certain := by
  have query (q : Query R) := Query.within_below v v.certain v.below_certain q
  induction e with
  | skip => trivial
  | add a => exact within
  | delete a => exact within
  | conj parts ih =>
      rw [has_probabilistic_conj, List.any_eq_false] at deterministic
      refine (within_list _ parts).mpr fun e member => ?_
      exact ih e member ((within_list v parts).mp within e member) (by simpa using deterministic e member)
  | forAll vars body ih =>
      rw [has_probabilistic_for_all] at deterministic
      exact ⟨within.1, ih within.2 deterministic⟩
  | when condition body ih =>
      rw [has_probabilistic_when] at deterministic
      exact ⟨query condition within.1, ih within.2 deterministic⟩
  | assign op fluent value => exact ⟨within.1, within.2.1, query value within.2.2⟩
  | probabilistic outcomes _ => simp [has_probabilistic_choice] at deterministic

theorem within_deterministic (v : Vocabulary R) (certain : ¬v.chance) (e : Effect R) (within : e.Within v) :
    e.hasProbabilistic = false := by
  induction e with
  | conj parts ih =>
      rw [has_probabilistic_conj, List.any_eq_false]
      intro e member
      simpa using ih e member ((within_list v parts).mp within e member)
  | forAll vars body ih => rw [has_probabilistic_for_all, ih within.2]
  | when condition body ih => rw [has_probabilistic_when, ih within.2]
  | probabilistic outcomes _ => exact absurd within.1 certain
  | skip | add | delete | assign => rfl

theorem node_within (v : Vocabulary R) (e : Effect R) (within : e.Within v) : ∀ node ∈ e.nodes, node.Within v := by
  induction e with
  | conj parts ih =>
      intro node member
      rcases (mem_nodes_conj node parts).mp member with rfl | ⟨e, inParts, inside⟩
      · exact within
      · exact ih e inParts ((within_list v parts).mp within e inParts) node inside
  | forAll vars body ih =>
      intro node member
      rcases (mem_nodes_for_all node vars body).mp member with rfl | inside
      · exact within
      · exact ih within.2 node inside
  | when condition body ih =>
      intro node member
      rcases (mem_nodes_when node condition body).mp member with rfl | inside
      · exact within
      · exact ih within.2 node inside
  | probabilistic outcomes ih =>
      intro node member
      rcases (mem_nodes_choice node outcomes).mp member with rfl | ⟨outcome, inOutcomes, inside⟩
      · exact within
      · exact ih outcome inOutcomes ((within_outcomes v outcomes).mp within.2 outcome inOutcomes) node inside
  | skip | add | delete | assign => exact List.forall_mem_singleton.mpr within

theorem map_assignments_outcomes (f : AssignOp → Atom → Query R → Effect R)
    (outcomes : List (R × Effect R)) :
    mapAssignmentsOutcomes f outcomes = outcomes.map (mapOutcome (mapAssignments f)) := by
  induction outcomes with
  | nil => rfl
  | cons outcome outcomes ih => simp only [mapAssignmentsOutcomes, ih, List.map_cons, mapOutcome]

theorem map_assignments_within (v w : Vocabulary R) (below : v.Below w) (chance : v.chance → w.chance)
    (f : AssignOp → Atom → Query R → Effect R)
    (each : ∀ op fluent value, (assign op fluent value).Within v → (f op fluent value).Within w)
    (e : Effect R) (within : e.Within v) : (e.mapAssignments f).Within w := by
  induction e with
  | skip => trivial
  | add a => exact below.fact a within
  | delete a => exact below.fact a within
  | conj parts ih =>
      rw [mapAssignments, map_assignments_list]
      refine (within_list w _).mpr fun e member => ?_
      obtain ⟨part, inParts, rfl⟩ := List.mem_map.mp member
      exact ih part inParts ((within_list v parts).mp within part inParts)
  | forAll vars body ih => exact ⟨below.forAll vars within.1, ih within.2⟩
  | when condition body ih => exact ⟨Query.within_below v w below condition within.1, ih within.2⟩
  | assign op fluent value => exact each op fluent value within
  | probabilistic outcomes ih =>
      rw [mapAssignments, map_assignments_outcomes]
      refine ⟨chance within.1, (within_outcomes w _).mpr fun outcome member => ?_⟩
      obtain ⟨origin, inOutcomes, rfl⟩ := List.mem_map.mp member
      exact ih origin inOutcomes ((within_outcomes v outcomes).mp within.2 origin inOutcomes)

variable [Number R]

-- What holds of an effect whatever holds of its parts. Simplification builds effects from simplified parts.
structure Compositional (P : Effect R → Prop) : Prop where
  skip : P skip
  conj : ∀ parts, P (conj parts) ↔ ∀ e ∈ parts, P e
  forAll : ∀ vars body, P (forAll vars body) → P body ∧ ∀ other, P other → P (forAll vars other)
  when : ∀ condition body, P (when condition body) →
    P body ∧ ∀ other, P other → P (when condition.simplify other)
  assign : ∀ op fluent value, P (assign op fluent value) → P (assign op fluent value.simplify)
  probabilistic : ∀ outcomes, P (probabilistic outcomes) →
    (∀ outcome ∈ outcomes, P outcome.2) ∧ ∀ kept, (∀ outcome ∈ kept, P outcome.2) → P (probabilistic kept)

section Compositional

variable {P : Effect R → Prop} (whole : Compositional P)

include whole

theorem conjuncts_keep (e : Effect R) (holds : P e) : ∀ part ∈ conjuncts e, P part := by
  cases e with
  | skip => simp [conjuncts]
  | conj parts => exact (whole.conj parts).mp holds
  | _ => simpa [conjuncts] using holds

theorem conjoin_keeps (parts : List (Effect R)) (each : ∀ e ∈ parts, P e) : P (conjoin parts) := by
  have flat : ∀ e ∈ parts.flatMap conjuncts, P e := by
    intro e member
    obtain ⟨part, inParts, inPart⟩ := List.mem_flatMap.mp member
    exact conjuncts_keep whole part (each part inParts) e inPart
  unfold conjoin
  generalize parts.flatMap conjuncts = found at flat ⊢
  rcases found with _ | ⟨e, _ | ⟨f, rest⟩⟩
  · exact whole.skip
  · exact flat e List.mem_cons_self
  · exact (whole.conj _).mpr flat

theorem set_keeps (op : AssignOp) (fluent : Atom) (value : Query R) (holds : P (assign op fluent value)) :
    P (set op fluent value) := by
  cases op with
  | assign => exact holds
  | increase | decrease | scaleUp | scaleDown =>
      simp only [set]
      split
      · exact whole.skip
      · exact holds

theorem choose_keeps (outcomes : List (R × Effect R)) (each : ∀ outcome ∈ outcomes, P outcome.2)
    (chosen : P (probabilistic outcomes)) : P (choose outcomes) := by
  unfold choose
  split
  · exact whole.skip
  · split
    · split
      · exact each _ List.mem_cons_self
      · exact chosen
    · exact chosen

theorem simplify_keeps (e : Effect R) (holds : P e) : P e.simplify := by
  induction e with
  | skip | add | delete => exact holds
  | conj parts ih =>
      rw [simplify, simplify_list]
      refine conjoin_keeps whole _ fun e member => ?_
      obtain ⟨part, inParts, rfl⟩ := List.mem_map.mp member
      exact ih part inParts ((whole.conj parts).mp holds part inParts)
  | forAll vars body ih =>
      obtain ⟨inside, wrapped⟩ := whole.forAll vars body holds
      rw [simplify, quantify]
      split
      · exact whole.skip
      · exact wrapped _ (ih inside)
  | when condition body ih =>
      obtain ⟨inside, guarded⟩ := whole.when condition body holds
      rw [simplify, guard]
      split
      · exact whole.skip
      · split
        · exact ih inside
        · exact guarded _ (ih inside)
  | assign op fluent value => exact set_keeps whole op fluent _ (whole.assign op fluent value holds)
  | probabilistic outcomes ih =>
      obtain ⟨each, among⟩ := whole.probabilistic outcomes holds
      have simplified : ∀ outcome ∈ simplifyOutcomes outcomes, P outcome.2 := by
        intro outcome member
        rw [simplify_outcomes] at member
        obtain ⟨origin, likely, rfl⟩ := List.mem_map.mp member
        have known := (List.mem_filter.mp likely).1
        exact ih origin known (each origin known)
      exact choose_keeps whole _ simplified (among _ simplified)

end Compositional

theorem within_compositional (v : Vocabulary R) (kept : ∀ q, v.operand q → v.operand q.simplify) :
    Compositional (Within v) where
  skip := trivial
  conj := within_list v
  forAll _ _ within := ⟨within.2, fun _ inside => ⟨within.1, inside⟩⟩
  when condition _ within := ⟨within.2, fun _ inside => ⟨Query.simplify_within v kept condition within.1, inside⟩⟩
  assign _ _ value within := ⟨within.1, kept value within.2.1, Query.simplify_within v kept value within.2.2⟩
  probabilistic outcomes within :=
    ⟨(within_outcomes v outcomes).mp within.2, fun others each => ⟨within.1, (within_outcomes v others).mpr each⟩⟩

theorem simplify_within (v : Vocabulary R) (kept : ∀ q, v.operand q → v.operand q.simplify)
    (e : Effect R) (within : e.Within v) : e.simplify.Within v :=
  simplify_keeps (within_compositional v kept) e within

end Replan.Effect
