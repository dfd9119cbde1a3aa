import Replan.Proofs.Effect.Structure
import Replan.Proofs.Query.Substitution
import Replan.Proofs.Results

set_option autoImplicit false

namespace Replan.Effect

open Results

variable {R : Type}

theorem is_skip_bind (σ : Substitution) (e : Effect R) : (e.bind σ).isSkip = e.isSkip := by
  cases e <;> rfl

theorem conjuncts_bind (σ : Substitution) (e : Effect R) :
    conjuncts (e.bind σ) = (conjuncts e).map (bind σ) := by
  cases e <;> simp [conjuncts, bind, bind_list]

theorem conjoin_bind (σ : Substitution) (parts : List (Effect R)) :
    conjoin (parts.map (bind σ)) = (conjoin parts).bind σ := by
  have flattened : (parts.map (bind σ)).flatMap conjuncts = (parts.flatMap conjuncts).map (bind σ) := by
    simp only [List.flatMap_map, List.map_flatMap, conjuncts_bind]
  unfold conjoin
  rw [flattened]
  rcases parts.flatMap conjuncts with _ | ⟨e, _ | ⟨f, rest⟩⟩
  · rfl
  · rfl
  · simp [bind, bind_list]

theorem guard_bind (σ : Substitution) (condition : Query R) (body : Effect R) :
    guard (condition.bind σ) (body.bind σ) = (guard condition body).bind σ := by
  simp only [guard, is_skip_bind, Query.is_false_bind, Query.is_always_bind, apply_ite (bind σ), bind]

variable [Number R]

theorem mass_map (f : Effect R → Effect R) (outcomes : List (R × Effect R)) :
    mass (outcomes.map (mapOutcome f)) = mass outcomes := by
  simp only [mass, List.map_map, Function.comp_def, mapOutcome]

theorem set_bind (σ : Substitution) (op : AssignOp) (fluent : Atom) (value : Query R) :
    set op (fluent.bind σ) (value.bind σ) = (set op fluent value).bind σ := by
  cases op <;> simp only [set, Query.is_constant_bind, apply_ite (bind σ), bind]

theorem choose_bind (σ : Substitution) (outcomes : List (R × Effect R)) :
    choose (outcomes.map (mapOutcome (bind σ))) = (choose outcomes).bind σ := by
  have allSkip : ((outcomes.map (mapOutcome (bind σ))).all fun outcome => outcome.2.isSkip) =
      outcomes.all fun outcome => outcome.2.isSkip := by
    simp only [List.all_map, Function.comp_def, mapOutcome, is_skip_bind]
  unfold choose
  rw [allSkip]
  split
  · rfl
  · rcases outcomes with _ | ⟨⟨p, e⟩, _ | ⟨other, rest⟩⟩
    · rfl
    · simp only [List.map_cons, List.map_nil, mapOutcome, apply_ite (bind σ), bind, bindOutcomes]
    · simp only [List.map_cons, bind, bind_outcomes]

theorem simplify_bind (e : Effect R) (σ : Substitution) : (e.bind σ).simplify = e.simplify.bind σ := by
  induction e generalizing σ with
  | skip => rfl
  | add a => rfl
  | delete a => rfl
  | conj parts ih =>
      simp only [bind, simplify, bind_list, simplify_list, List.map_map, ← conjoin_bind]
      congr 1
      exact List.map_congr_left fun e member => ih e member σ
  | forAll vars body ih =>
      simp only [bind, simplify, ih, quantify, is_skip_bind, apply_ite (bind σ)]
  | when condition body ih => simp only [bind, simplify, ih, Query.simplify_bind, guard_bind]
  | assign op fluent value => simp only [bind, simplify, Query.simplify_bind, set_bind]
  | probabilistic outcomes ih =>
      simp only [bind, simplify, bind_outcomes, simplify_outcomes, ← choose_bind]
      -- Which outcomes are negligible does not depend on the substitution.
      simp only [List.filter_map, List.map_map, Function.comp_def, mapOutcome]
      congr 1
      refine List.map_congr_left fun outcome member => ?_
      rw [ih outcome (List.mem_filter.mp member).1]

def mapChoice (f : Effect R → Effect R) (choice : R × List (Effect R)) : R × List (Effect R) :=
  (choice.1, choice.2.map f)

theorem cross_map (f : Effect R → Effect R) (choices : List (R × List (Effect R)))
    (branches : List (R × Effect R)) :
    cross (choices.map (mapChoice f)) (branches.map (mapOutcome f)) =
      (cross choices branches).map (mapChoice f) := by
  simp only [cross, List.flatMap_map, List.map_flatMap, List.map_map, Function.comp_def, mapChoice,
    mapOutcome, List.map_append, List.map_cons, List.map_nil]

theorem complete_bind (σ : Substitution) (massOf : R) (outcomes : List (R × Effect R)) :
    complete massOf (outcomes.map (mapOutcome (bind σ))) =
      (complete massOf outcomes).map (mapOutcome (bind σ)) := by
  simp only [complete, apply_ite (List.map (mapOutcome (bind σ))), List.map_append, List.map_cons,
    List.map_nil, mapOutcome, bind]

theorem branches_list_bind (σ : Substitution) (es : List (Effect R))
    (each : ∀ e ∈ es, (e.bind σ).branches = e.branches.map (List.map (mapOutcome (bind σ))))
    (choices : List (R × List (Effect R))) :
    branchesOfList (choices.map (mapChoice (bind σ))) (es.map (bind σ)) =
      (branchesOfList choices es).map (List.map (mapChoice (bind σ))) := by
  induction es generalizing choices with
  | nil => rfl
  | cons e es ih =>
      simp only [List.map_cons, branchesOfList, each e List.mem_cons_self]
      cases e.branches with
      | error error => rfl
      | ok found =>
          have rest := ih (fun f member => each f (List.mem_cons_of_mem e member)) (cross choices found)
          rw [← cross_map] at rest
          exact rest

theorem branches_outcomes_bind (σ : Substitution) (outcomes : List (R × Effect R))
    (each : ∀ outcome ∈ outcomes,
      (outcome.2.bind σ).branches = outcome.2.branches.map (List.map (mapOutcome (bind σ)))) :
    branchesOfOutcomes (outcomes.map (mapOutcome (bind σ))) =
      (branchesOfOutcomes outcomes).map (List.map (mapOutcome (bind σ))) := by
  induction outcomes with
  | nil => rfl
  | cons outcome outcomes ih =>
      obtain ⟨p, e⟩ := outcome
      have first := each (p, e) List.mem_cons_self
      have rest := ih fun other member => each other (List.mem_cons_of_mem _ member)
      simp only [List.map_cons, mapOutcome, branchesOfOutcomes] at first rest ⊢
      rw [first, rest]
      cases e.branches with
      | error error => rfl
      | ok found =>
          cases branchesOfOutcomes outcomes with
          | error error => rfl
          | ok others =>
              simp only [Except.map, ok_bind, pure, Except.pure, List.map_append, List.map_map,
                Function.comp_def, mapOutcome]

theorem branches_bind (e : Effect R) (σ : Substitution) :
    (e.bind σ).branches = e.branches.map (List.map (mapOutcome (bind σ))) := by
  induction e generalizing σ with
  | skip => rfl
  | add a => rfl
  | delete a => rfl
  | conj parts ih =>
      have found := branches_list_bind σ parts (fun e member => ih e member σ) [(Number.one, [])]
      simp only [List.map_cons, List.map_nil, mapChoice] at found
      simp only [bind, branches, bind_list, found]
      cases branchesOfList [(Number.one, [])] parts with
      | error error => rfl
      | ok choices =>
          have each (choice : R × List (Effect R)) :
              (conj (choice.2.map (bind σ))).simplify = (conj choice.2).simplify.bind σ := by
            rw [← simplify_bind, bind, bind_list]
          simp only [Except.map, pure, Except.pure, ok_bind, List.map_map, Function.comp_def, mapOutcome,
            mapChoice, each]
  | forAll vars body ih =>
      simp only [bind, branches, has_probabilistic_bind]
      split <;> rfl
  | when condition body ih =>
      simp only [bind, branches, has_probabilistic_bind]
      split <;> rfl
  | assign op fluent value => rfl
  | probabilistic outcomes ih =>
      have found := branches_outcomes_bind σ outcomes fun outcome member => ih outcome member σ
      simp only [bind, branches, bind_outcomes, found, mass_map]
      cases branchesOfOutcomes outcomes with
      | error error => rfl
      | ok inner => simp only [Except.map, pure, Except.pure, ok_bind, complete_bind]

theorem credit_skip_bind (σ : Substitution) (extra : R) (outcomes : List (R × Effect R)) :
    creditSkip extra (outcomes.map (mapOutcome (bind σ))) =
      (creditSkip extra outcomes).map (List.map (mapOutcome (bind σ))) := by
  induction outcomes with
  | nil => rfl
  | cons outcome outcomes ih =>
      obtain ⟨p, e⟩ := outcome
      simp only [List.map_cons, mapOutcome, creditSkip, is_skip_bind] at ih ⊢
      split
      · rfl
      · rw [ih, Option.map_map, Option.map_map]
        rfl

theorem settle_bind (σ : Substitution) (outcomes : List (R × Effect R)) :
    settle (outcomes.map (mapOutcome (bind σ))) = (settle outcomes).map (mapOutcome (bind σ)) := by
  have filtered (keep : R → Bool) :
      (outcomes.map (mapOutcome (bind σ))).filter (fun outcome => keep outcome.1) =
        (outcomes.filter fun outcome => keep outcome.1).map (mapOutcome (bind σ)) := by
    simp only [List.filter_map, Function.comp_def, mapOutcome]
  unfold settle
  rw [filtered fun p => Number.le Number.epsilon p, filtered fun p => !Number.le Number.epsilon p]
  generalize (outcomes.filter fun outcome => Number.le Number.epsilon outcome.1) = kept
  generalize (outcomes.filter fun outcome => !Number.le Number.epsilon outcome.1) = dropped
  simp only [mass_map, credit_skip_bind]
  split
  · cases creditSkip (mass dropped) kept with
    | some credited => rfl
    | none =>
        simp only [Option.map_none]
        split
        · rw [List.map_append]
          rfl
        · rfl
  · rfl

theorem expand_bind (e : Effect R) (σ : Substitution) :
    (e.bind σ).expand = e.expand.map (List.map (mapOutcome (bind σ))) := by
  rw [expand, expand, branches_bind]
  cases e.branches with
  | error error => rfl
  | ok outcomes => exact congrArg Except.ok (settle_bind σ outcomes)

end Replan.Effect
