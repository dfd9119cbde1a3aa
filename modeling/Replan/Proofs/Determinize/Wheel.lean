import Replan.Proofs.Agreement
import Replan.Proofs.Determinize.Variant
import Replan.Proofs.Effect.Expansion

set_option autoImplicit false

namespace Replan.Hindsight

open Names

section Names

theorem step_name_injective (i j : Nat) (same : stepName i = stepName j) : i = j := by
  have spelled (n : Nat) : (stepName n).toList = ['h', 's'] ++ '-' :: (toString n).toList := by
    simp [stepName]
  have letters : (stepName i).toList = (stepName j).toList := by rw [same]
  rw [spelled, spelled] at letters
  exact (numbered_injective _ _ _ _ i j (by decide) (by decide) letters).2.2

theorem choice_spelled (a : String) (i : Nat) :
    (choiceName a i).toList = ('h' :: 's' :: '-' :: a.toList ++ ['-']) ++ 'o' :: (toString i).toList := by
  simp [choiceName]

theorem choice_name_injective (a b : String) (i j : Nat) (same : choiceName a i = choiceName b j) :
    a = b ∧ i = j := by
  have letters : (choiceName a i).toList = (choiceName b j).toList := by rw [same]
  rw [choice_spelled, choice_spelled] at letters
  obtain ⟨stems, _, numbers⟩ := numbered_injective _ _ _ _ i j (by decide) (by decide) letters
  have names := (List.append_inj' stems rfl).1
  simp only [List.cons.injEq, true_and] at names
  exact ⟨String.toList_inj.mp names, numbers⟩

theorem choice_is_not (a : String) (i : Nat) (name : String) (last : Char)
    (ends : name.toList.getLast? = some last) (letter : last.isDigit = false) : choiceName a i ≠ name := by
  intro same
  obtain ⟨c, found, digit⟩ := last_digit (('h' :: 's' :: '-' :: a.toList ++ ['-']) ++ ['o']) i
  rw [← same, choice_spelled] at ends
  rw [List.append_assoc, List.singleton_append, ends] at found
  cases found
  exact Bool.false_ne_true (letter.symm.trans digit)

theorem choice_is_not_next (a : String) (i : Nat) : choiceName a i ≠ nextName :=
  choice_is_not a i nextName 't' (by decide) (by decide)

theorem choice_is_not_token (method : WheelMethod) (a b : String) (i : Nat) :
    choiceName a i ≠ tokenName method b := by
  cases method with
  | shared => exact choice_is_not a i nowName 'w' (by decide) (by decide)
  | perAction =>
      have ends : (tokenName .perAction b).toList = ('h' :: 's' :: '-' :: b.toList ++ ['-', 'a']) ++ ['t'] := by
        simp [tokenName]
      exact choice_is_not a i _ 't' (by rw [ends, List.getLast?_concat]) (by decide)

theorem token_is_not_next (method : WheelMethod) (a : String) : tokenName method a ≠ nextName := by
  cases method with
  | shared => exact show nowName ≠ nextName by decide
  | perAction =>
      intro same
      have letters : (tokenName .perAction a).toList.reverse = nextName.toList.reverse := by rw [same]
      simp [tokenName, nextName] at letters

theorem token_name_injective (a b : String) (same : tokenName .perAction a = tokenName .perAction b) :
    a = b := by
  have letters : (tokenName .perAction a).toList = (tokenName .perAction b).toList := by rw [same]
  simp only [tokenName, String.toList_append, List.append_cancel_right_eq, List.append_cancel_left_eq] at letters
  exact String.toList_inj.mp letters

theorem reserved_prefix (rest : String) : reserved ("hs-" ++ rest) = true := by
  simp [reserved, List.isPrefixOf]

theorem choice_reserved (a : String) (i : Nat) : reserved (choiceName a i) = true := by
  simp [choiceName, String.append_assoc, reserved_prefix]

theorem next_reserved : reserved nextName = true := by
  simp [reserved, nextName, List.isPrefixOf]

theorem token_reserved (method : WheelMethod) (a : String) : reserved (tokenName method a) = true := by
  cases method with
  | shared => simp [tokenName, nowName, reserved, List.isPrefixOf]
  | perAction => simp [tokenName, String.append_assoc, reserved_prefix]

theorem reserved_is_not_equality (name : String) (isReserved : reserved name = true) : name ≠ "=" := by
  rintro rfl
  simp [reserved, List.isPrefixOf] at isReserved

end Names

section Drawing

variable {R : Type} [Number R]

theorem draw_steps (name : String) (probabilities : List R) (dice : Dice R) (steps : List String) :
    (drawSteps name probabilities dice steps).2 = { dice with used := dice.used + steps.length } ∧
      ∀ f, f ∈ (drawSteps name probabilities dice steps).1 ↔ ∃ k step, steps[k]? = some step ∧
        f = ⟨choiceName name (pickOutcome probabilities (dice.draws (dice.used + k))), [step]⟩ := by
  induction steps generalizing dice with
  | nil => exact ⟨rfl, by simp [drawSteps]⟩
  | cons step steps ih =>
      obtain ⟨used, facts⟩ := ih { dice with used := dice.used + 1 }
      refine ⟨?_, fun f => ?_⟩
      · simp only [drawSteps, Dice.roll, used, List.length_cons]
        rw [Nat.add_assoc, Nat.add_comm 1]
      · simp only [drawSteps, Dice.roll, List.mem_cons, facts]
        constructor
        · intro drawn
          rcases drawn with rfl | ⟨k, other, found, rfl⟩
          · exact ⟨0, step, rfl, rfl⟩
          · exact ⟨k + 1, other, found, by rw [Nat.add_assoc, Nat.add_comm 1]⟩
        · intro drawn
          obtain ⟨k, other, found, rfl⟩ := drawn
          cases k with
          | zero =>
              cases found
              exact Or.inl rfl
          | succ k => exact Or.inr ⟨k, other, found, by rw [Nat.add_assoc, Nat.add_comm 1]⟩

theorem mem_draw_actions (steps : List String) (dice : Dice R) (actions : List (String × List R))
    (f : Ground) : f ∈ (drawActions steps dice actions).1 ↔
      ∃ j name probabilities k step, actions[j]? = some (name, probabilities) ∧ steps[k]? = some step ∧
        f = ⟨choiceName name (pickOutcome probabilities
          (dice.draws (dice.used + j * steps.length + k))), [step]⟩ := by
  induction actions generalizing dice with
  | nil => simp [drawActions]
  | cons action actions ih =>
      obtain ⟨name, probabilities⟩ := action
      obtain ⟨used, facts⟩ := draw_steps name probabilities dice steps
      simp only [drawActions, List.mem_append, facts, used, ih]
      -- The draws for the first action come before those for the others.
      have later (j k : Nat) : dice.used + (j + 1) * steps.length + k =
          dice.used + steps.length + j * steps.length + k := by
        rw [Nat.add_mul, Nat.one_mul]
        omega
      constructor
      · intro drawn
        rcases drawn with ⟨k, step, found, rfl⟩ | ⟨j, other, others, k, step, listed, found, rfl⟩
        · exact ⟨0, name, probabilities, k, step, rfl, found, by simp⟩
        · exact ⟨j + 1, other, others, k, step, listed, found, by rw [later]⟩
      · intro drawn
        obtain ⟨j, other, others, k, step, listed, found, rfl⟩ := drawn
        cases j with
        | zero =>
            cases listed
            exact Or.inl ⟨k, step, found, by simp⟩
        | succ j => exact Or.inr ⟨j, other, others, k, step, listed, found, by rw [later]⟩

theorem steps_at (size k : Nat) (step : String) :
    ((List.range size).map stepName)[k]? = some step ↔ k < size ∧ step = stepName k := by
  rw [List.getElem?_map, Option.map_eq_some_iff]
  constructor
  · intro listed
    obtain ⟨i, found, rfl⟩ := listed
    obtain ⟨bound, same⟩ := List.getElem?_eq_some_iff.mp found
    rw [List.getElem_range] at same
    exact ⟨by simpa using bound, by rw [same]⟩
  · intro within
    obtain ⟨bound, rfl⟩ := within
    exact ⟨k, List.getElem?_range bound, rfl⟩

theorem drawn_iff (size : Nat) (dice : Dice R) (actions : List (String × List R))
    (distinct : (actions.map Prod.fst).Nodup) (j : Nat) (name : String) (probabilities : List R)
    (at_j : actions[j]? = some (name, probabilities)) (k : Nat) (bound : k < size) (i : Nat) :
    ⟨choiceName name i, [stepName k]⟩ ∈
        (drawActions ((List.range size).map stepName) dice actions).1 ↔
      i = pickOutcome probabilities (dice.draws (dice.used + j * size + k)) := by
  rw [mem_draw_actions]
  simp only [steps_at, List.length_map, List.length_range, Ground.mk.injEq, List.cons.injEq, and_true]
  constructor
  · intro drawn
    obtain ⟨j', other, others, k', step, listed, ⟨_, rfl⟩, names, steps⟩ := drawn
    obtain ⟨rfl, rfl⟩ := choice_name_injective _ _ _ _ names
    obtain rfl := step_name_injective _ _ steps
    have first : (actions.map Prod.fst)[j]? = some name := by rw [List.getElem?_map, at_j]; rfl
    have second : (actions.map Prod.fst)[j']? = some name := by rw [List.getElem?_map, listed]; rfl
    have inList := (List.getElem?_eq_some_iff.mp first).1
    obtain rfl := (List.getElem?_inj inList distinct).mp (first.trans second.symm)
    cases at_j.symm.trans listed
    rfl
  · rintro rfl
    exact ⟨j, name, probabilities, k, stepName k, at_j, ⟨bound, rfl⟩, rfl, rfl⟩

theorem pick_in_range (total draw : R) (probabilities : List R) (nonempty : probabilities ≠ []) :
    pickFrom total draw probabilities < probabilities.length := by
  induction probabilities generalizing total with
  | nil => exact absurd rfl nonempty
  | cons p rest ih =>
      cases rest with
      | nil => exact Nat.one_pos
      | cons q rest =>
          rw [pickFrom]
          split
          · exact Nat.succ_pos _
          · exact Nat.succ_lt_succ (ih (total + p) (by simp))

end Drawing

section Variants

variable {R : Type} [Number R]

def variantAt (method : WheelMethod) (transformRewards : Bool) (b : Action R) (i : Nat)
    (outcome : R × Effect R) : Action R :=
  let plain := b.variant i outcome.1 (settleRewards transformRewards outcome.2)
  if isWheeled b then onWheel (tokenName method b.name) (choiceName b.name i) plain else plain

theorem variant_at_name (method : WheelMethod) (transformRewards : Bool) (b : Action R) (i : Nat)
    (outcome : R × Effect R) :
    (variantAt method transformRewards b i outcome).name = variantName b.name i ∧
      (variantAt method transformRewards b i outcome).origin =
        some ⟨b.name, i, outcome.1, b.parameters.length⟩ := by
  unfold variantAt
  split <;> exact ⟨rfl, rfl⟩

theorem variants_numbered (method : WheelMethod) (transformRewards : Bool) :
    Numbered (variants (R := R) method transformRewards) :=
  zipped_numbered _ (variantAt method transformRewards)
    (fun b i outcome => (variant_at_name method transformRewards b i outcome).1) fun _ => rfl

theorem variants_at (method : WheelMethod) (transformRewards : Bool) (b : Action R) (i : Nat) :
    (variants method transformRewards b)[i]? =
      b.outcomes[i]?.map (variantAt method transformRewards b i) :=
  zipped_at (variantAt method transformRewards b) b.outcomes i

theorem determinized_actions (method : WheelMethod) (transformRewards : Bool) (d : Domain R) :
    (determinize method transformRewards d).actions =
      d.actions.flatMap (variants method transformRewards) := by
  unfold determinize declareWheel
  simp only
  split
  · exact classical_actions d _
  · exact classical_actions d _

theorem determinized_types (method : WheelMethod) (transformRewards : Bool) (d : Domain R) :
    (determinize method transformRewards d).constants = d.constants ∧
      ((determinize method transformRewards d).types = d.types ∨
        (determinize method transformRewards d).types = d.types.insert stepType "object") := by
  obtain ⟨types, constants⟩ := classical_keeps d (d.actions.flatMap (variants method transformRewards))
  unfold determinize declareWheel
  simp only
  split
  · exact ⟨constants, Or.inl types⟩
  · exact ⟨constants, Or.inr (by rw [types])⟩

theorem settle_rewards_within (v : Vocabulary R) (costs : ∀ op, v.assigned op totalCostAtom)
    (kept : ∀ q, v.operand q → v.operand q.simplify) (transformRewards : Bool) (e : Effect R)
    (within : e.Within v) : (settleRewards transformRewards e).Within v := by
  unfold settleRewards
  split
  · exact Effect.simplify_within v kept _ (Effect.rewards_to_costs_within v (costs _) (costs _) e within)
  · exact Effect.simplify_within v kept _ (Effect.unless_of_within v rewardAtom e within)

theorem on_wheel_deterministic (token choice : String) (v : Action R)
    (deterministic : v.effect.hasProbabilistic = false) :
    (onWheel token choice v).effect.hasProbabilistic = false := by
  refine Effect.simplify_deterministic _ ?_
  rw [Effect.has_probabilistic_conj, List.any_cons, deterministic]
  rfl

def readStep (σ : Substitution) (wheelVariable : String) : String :=
  (σ.lookup? wheelVariable).getD wheelVariable

theorem on_wheel_applicable (token choice : String) (v : Action R) (σ : Substitution) (s : State R) :
    ((onWheel token choice v).bind σ).isApplicable s = true ↔
      (v.precondition.simplify.bind σ).holds s = true ∧
        s.holds ⟨token, [readStep σ currentVariable]⟩ = true ∧
        s.holds ⟨nextName, [readStep σ currentVariable, readStep σ followingVariable]⟩ = true ∧
        s.holds ⟨choice, [readStep σ currentVariable]⟩ = true := by
  have fact (a : Atom) : ((Query.fact a).evalUnder s [σ]).asBool = s.holds (a.bind σ).ground := rfl
  rw [Action.isApplicable, Action.bind, onWheel, Query.holds_bind, Query.holds_bind, Query.simplify,
    Query.simplify_list, Query.conjoin_truth, List.all_map]
  simp only [List.all_cons, List.all_nil, Function.comp_apply, Query.simplify, fact, Bool.and_eq_true,
    and_true]
  rfl

theorem on_wheel_gathered (token choice : String) (v : Action R) (σ : Substitution) (s : State R) :
    (onWheel token choice v).effect.gathered s [σ] =
      (v.effect.simplify.gathered s [σ]).append
        ⟨[⟨token, [readStep σ followingVariable]⟩], [⟨token, [readStep σ currentVariable]⟩], []⟩ := by
  rw [onWheel, Effect.simplify, Effect.simplify_list, Effect.conjoin_gathered, List.map_map]
  simp only [List.map_cons, List.map_nil, Function.comp_apply, Effect.simplify, Effect.gathered,
    Changes.join_cons, Changes.join_nil, Changes.append, Changes.none, List.append_nil, List.nil_append]
  rfl

end Variants

end Replan.Hindsight
