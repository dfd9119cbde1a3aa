import Replan.Effect.Expand
import Replan.Effect.Costs

set_option autoImplicit false

namespace Replan.Effect

variable {R : Type}

attribute [local simp] bind nodes mapAssignments simplify branches

@[elab_as_elim, induction_eliminator]
theorem structural {motive : Effect R → Prop}
    (skip : motive skip)
    (add : ∀ a, motive (add a))
    (delete : ∀ a, motive (delete a))
    (conj : ∀ parts, (∀ e ∈ parts, motive e) → motive (conj parts))
    (forAll : ∀ vars body, motive body → motive (forAll vars body))
    (when : ∀ condition body, motive body → motive (when condition body))
    (assign : ∀ op fluent value, motive (assign op fluent value))
    (probabilistic : ∀ outcomes, (∀ outcome ∈ outcomes, motive outcome.2) →
      motive (probabilistic outcomes))
    (e : Effect R) : motive e := by
  have recur (f : Effect R) (_ : sizeOf f < sizeOf e) : motive f :=
    structural skip add delete conj forAll when assign probabilistic f
  cases e with
  | skip => exact skip
  | add a => exact add a
  | delete a => exact delete a
  | conj parts =>
      refine conj parts fun f member => recur f ?_
      have smaller := List.sizeOf_lt_of_mem member
      grind
  | forAll vars body => exact forAll vars body (recur body (by grind))
  | when condition body => exact when condition body (recur body (by grind))
  | assign op fluent value => exact assign op fluent value
  | probabilistic outcomes =>
      refine probabilistic outcomes fun outcome member => recur outcome.2 ?_
      have smaller := List.sizeOf_lt_of_mem member
      obtain ⟨p, f⟩ := outcome
      grind
termination_by sizeOf e

def mapOutcome (f : Effect R → Effect R) (outcome : R × Effect R) : R × Effect R :=
  (outcome.1, f outcome.2)

theorem bind_list (σ : Substitution) (es : List (Effect R)) : bindList σ es = es.map (bind σ) := by
  induction es with
  | nil => rfl
  | cons e es ih => simp only [bindList, ih, List.map_cons]

theorem bind_outcomes (σ : Substitution) (outcomes : List (R × Effect R)) :
    bindOutcomes σ outcomes = outcomes.map (mapOutcome (bind σ)) := by
  induction outcomes with
  | nil => rfl
  | cons outcome outcomes ih => simp only [bindOutcomes, ih, List.map_cons, mapOutcome]

theorem nodes_list (es : List (Effect R)) : nodesList es = es.flatMap nodes := by
  induction es with
  | nil => rfl
  | cons e es ih => simp only [nodesList, ih, List.flatMap_cons]

theorem nodes_outcomes (outcomes : List (R × Effect R)) :
    nodesOutcomes outcomes = outcomes.flatMap fun outcome => nodes outcome.2 := by
  induction outcomes with
  | nil => rfl
  | cons outcome outcomes ih => simp only [nodesOutcomes, ih, List.flatMap_cons]

theorem mem_nodes_conj (node : Effect R) (parts : List (Effect R)) :
    node ∈ (conj parts).nodes ↔ node = conj parts ∨ ∃ e ∈ parts, node ∈ e.nodes := by
  simp [nodes_list]

theorem mem_nodes_for_all (node : Effect R) (vars : List Term) (body : Effect R) :
    node ∈ (forAll vars body).nodes ↔ node = forAll vars body ∨ node ∈ body.nodes := by
  simp

theorem mem_nodes_when (node : Effect R) (condition : Query R) (body : Effect R) :
    node ∈ (when condition body).nodes ↔ node = when condition body ∨ node ∈ body.nodes := by
  simp

theorem mem_nodes_choice (node : Effect R) (outcomes : List (R × Effect R)) :
    node ∈ (probabilistic outcomes).nodes ↔
      node = probabilistic outcomes ∨ ∃ outcome ∈ outcomes, node ∈ outcome.2.nodes := by
  rw [nodes, nodes_outcomes, List.mem_cons, List.mem_flatMap]

theorem map_assignments_list (f : AssignOp → Atom → Query R → Effect R) (es : List (Effect R)) :
    mapAssignmentsList f es = es.map (mapAssignments f) := by
  induction es with
  | nil => rfl
  | cons e es ih => simp only [mapAssignmentsList, ih, List.map_cons]

theorem has_probabilistic_conj (parts : List (Effect R)) :
    (conj parts).hasProbabilistic = parts.any hasProbabilistic := by
  simp only [hasProbabilistic, nodes, nodes_list, isProbabilistic, List.any_cons, List.any_flatMap,
    Bool.false_or]
  rfl

theorem has_probabilistic_for_all (vars : List Term) (body : Effect R) :
    (forAll vars body).hasProbabilistic = body.hasProbabilistic := by
  simp [hasProbabilistic, nodes, isProbabilistic]

theorem has_probabilistic_when (condition : Query R) (body : Effect R) :
    (when condition body).hasProbabilistic = body.hasProbabilistic := by
  simp [hasProbabilistic, nodes, isProbabilistic]

theorem has_probabilistic_choice (outcomes : List (R × Effect R)) :
    (probabilistic outcomes).hasProbabilistic = true := by
  simp [hasProbabilistic, nodes, isProbabilistic]

theorem has_probabilistic_bind (e : Effect R) (σ : Substitution) :
    (e.bind σ).hasProbabilistic = e.hasProbabilistic := by
  induction e generalizing σ with
  | skip => rfl
  | add a => rfl
  | delete a => rfl
  | conj parts ih =>
      simp only [bind, bind_list, has_probabilistic_conj, List.any_map, Function.comp_def]
      rw [Bool.eq_iff_iff, List.any_eq_true, List.any_eq_true]
      exact exists_congr fun e => and_congr_right fun member => by rw [ih e member]
  | forAll vars body ih => simp only [bind, has_probabilistic_for_all, ih]
  | when condition body ih => simp only [bind, has_probabilistic_when, ih]
  | assign op fluent value => rfl
  | probabilistic outcomes _ => simp only [bind, has_probabilistic_choice]

variable [Number R]

theorem simplify_list (es : List (Effect R)) : simplifyList es = es.map simplify := by
  induction es with
  | nil => rfl
  | cons e es ih => simp only [simplifyList, ih, List.map_cons]

theorem simplify_outcomes (outcomes : List (R × Effect R)) :
    simplifyOutcomes outcomes =
      (outcomes.filter fun outcome => Number.le Number.epsilon outcome.1).map (mapOutcome simplify) := by
  induction outcomes with
  | nil => rfl
  | cons outcome outcomes ih =>
      obtain ⟨p, e⟩ := outcome
      simp only [simplifyOutcomes, ih, List.filter_cons]
      split <;> rfl

def IsDistribution (outcomes : List (R × Effect R)) : Prop :=
  probabilistic? outcomes = .ok (probabilistic outcomes)

-- A probabilistic effect comes from `probabilistic?` wherever it stands.
def Built (e : Effect R) : Prop := ∀ outcomes, probabilistic outcomes ∈ e.nodes → IsDistribution outcomes

theorem probabilistic_ok (outcomes : List (R × Effect R)) (e : Effect R)
    (accepted : probabilistic? outcomes = .ok e) : e = probabilistic outcomes := by
  unfold probabilistic? at accepted
  split at accepted
  · cases accepted
  · split at accepted
    · cases accepted
    · cases accepted
      rfl

theorem is_distribution_iff (outcomes : List (R × Effect R)) : IsDistribution outcomes ↔
    (∀ outcome ∈ outcomes, isProbability outcome.1 = true) ∧
      Number.lt (Number.one + Number.epsilon) (mass outcomes) = false := by
  rw [IsDistribution, probabilistic?]
  constructor
  · intro accepted
    split at accepted
    · cases accepted
    · rename_i all
      split at accepted
      · cases accepted
      · rename_i few
        refine ⟨fun outcome member => ?_, Bool.eq_false_iff.mpr few⟩
        simpa using List.find?_eq_none.mp all outcome member
  · rintro ⟨all, few⟩
    have none : outcomes.find? (fun outcome => !isProbability outcome.1) = none :=
      List.find?_eq_none.mpr fun outcome member => by simp [all outcome member]
    simp only [none, few]
    rfl

theorem built_certain (e : Effect R) (certain : e.hasProbabilistic = false) : e.Built := by
  intro outcomes inside
  rw [hasProbabilistic, List.any_eq_false] at certain
  exact absurd rfl (certain _ inside)

theorem built_conj (parts : List (Effect R)) : (conj parts).Built ↔ ∀ e ∈ parts, e.Built := by
  simp only [Built, mem_nodes_conj]
  constructor
  · exact fun built e member outcomes inside => built outcomes (.inr ⟨e, member, inside⟩)
  · rintro each outcomes (here | ⟨e, member, inside⟩)
    · cases here
    · exact each e member outcomes inside

theorem built_for_all (vars : List Term) (body : Effect R) : (forAll vars body).Built ↔ body.Built := by
  simp only [Built, mem_nodes_for_all]
  constructor
  · exact fun built outcomes inside => built outcomes (.inr inside)
  · rintro built outcomes (here | inside)
    · cases here
    · exact built outcomes inside

theorem built_when (condition : Query R) (body : Effect R) : (when condition body).Built ↔ body.Built := by
  simp only [Built, mem_nodes_when]
  constructor
  · exact fun built outcomes inside => built outcomes (.inr inside)
  · rintro built outcomes (here | inside)
    · cases here
    · exact built outcomes inside

theorem built_choice (outcomes : List (R × Effect R)) :
    (probabilistic outcomes).Built ↔ IsDistribution outcomes ∧ ∀ outcome ∈ outcomes, outcome.2.Built := by
  simp only [Built, mem_nodes_choice]
  constructor
  · exact fun built => ⟨built outcomes (.inl rfl), fun outcome member os inside => built os (.inr ⟨outcome, member, inside⟩)⟩
  · rintro ⟨distribution, each⟩ os (here | ⟨outcome, member, inside⟩)
    · cases here
      exact distribution
    · exact each outcome member os inside

end Replan.Effect
