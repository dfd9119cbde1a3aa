import Mathlib.Algebra.Order.Field.Basic
import Mathlib.Algebra.Order.Ring.Pow
import Replan.Proofs.Determinize.Variant
import Replan.Proofs.Effect.Expansion
import Replan.Proofs.Effect.Structure

set_option autoImplicit false

namespace Replan

open Results

namespace AllOutcome

variable {R : Type} [Number R]

theorem variants_at (b : Action R) (i : Nat) :
    (variants b)[i]? = b.outcomes[i]?.map fun outcome =>
      b.variant i outcome.1 outcome.2.withoutRewards.simplify :=
  zipped_at (fun i (outcome : R × Effect R) => b.variant i outcome.1 outcome.2.withoutRewards.simplify) b.outcomes i

theorem variants_numbered : Numbered (variants (R := R)) :=
  zipped_numbered _ (fun b i (outcome : R × Effect R) => b.variant i outcome.1 outcome.2.withoutRewards.simplify)
    (fun _ _ _ => rfl) fun _ => rfl

theorem variant_only (bs : List (Action R)) (distinct : (bs.map Action.name).Nodup) (b : Action R) (member : b ∈ bs)
    (i : Nat) (p : R) (e : Effect R) (found : b.outcomes[i]? = some (p, e)) :
    (bs.flatMap variants).filter (fun w => w.name == variantName b.name i) =
      [b.variant i p e.withoutRewards.simplify] := by
  have variant := variants_at b i
  rw [found, Option.map_some] at variant
  exact only_variant _ variants_numbered bs distinct b member i _ variant

theorem variant_stands_for (a b : Action R) (became : a.preprocess = .ok b) (v : Action R) (member : v ∈ variants b) :
    ∃ os i, a.effect.expand = .ok os ∧ v.name = variantName a.name i ∧
      (i < os.length ∨ os = [] ∧ i = 0 ∧ v.effect = .skip) := by
  obtain ⟨os, expanded, numbering, -⟩ := Action.preprocess_outcomes a b became
  obtain ⟨i, at_i⟩ := List.mem_iff_getElem?.mp member
  have named := numbered_at _ variants_numbered b i v at_i
  rw [variants_at, numbering] at at_i
  obtain ⟨outcome, found, rfl⟩ := Option.map_eq_some_iff.mp at_i
  refine ⟨os, i, expanded, by rw [named, (Action.preprocess_keeps a b became).1], ?_⟩
  rcases os with _ | ⟨first, rest⟩
  · cases i with
    | zero => exact Or.inr ⟨rfl, rfl, by cases found; rfl⟩
    | succ i => cases found
  · left
    have bound := (List.getElem?_eq_some_iff.mp found).1
    rwa [Effect.numbered_length] at bound

end AllOutcome

variable {K : Type} [ExactNumber K]

theorem variant_follows_outcome (e : Effect K) (σ : Substitution) (s : State K)
    (formed : e.Within (Vocabulary.numericOperands K).certain)
    (inhabited : e.Within (Vocabulary.populated K s.world)) :
    ∃ s₁ s₂, (e.bind σ).apply s = .ok s₁ ∧ (e.withoutRewards.simplify.bind σ).apply s = .ok s₂ ∧
      s₂.facts = s₁.facts ∧ s₂.totalCost = s₁.totalCost ∧ s₂.reward = s.reward ∧
      ∀ f, f ≠ rewardAtom.ground → s₂.value f = s₁.value f := by
  have agree := Effect.rewritten_gathered Effect.isReward e e.withoutRewards s [σ]
    (Effect.without_rewards_gathered e s [σ]) (Effect.unless_of_within _ _ e formed)
    (Effect.unless_of_within _ _ e inhabited)
  have rewardless := Effect.simplify_within _ Query.simplify_stays_numeric _ (Effect.unless_of_within _ rewardAtom e formed)
  have spared := Effect.simplify_within _ (fun _ => id) _ (Effect.unless_of_spares rewardAtom e)
  -- Neither effect has a choice left in it, so both can be carried out.
  have ground (f : Effect K) (certain : f.Within (Vocabulary.numericOperands K).certain) :
      (f.bind σ).apply s = .ok ((f.gathered s [σ]).applyTo s) := by
    have deterministic := Effect.within_deterministic _ id f certain
    rw [Effect.apply_gathered _ (by rw [Effect.has_probabilistic_bind, deterministic]), Effect.gathered_bind]
  have values (f : Ground) (seen : f ≠ rewardAtom.ground) :
      ((e.withoutRewards.simplify.gathered s [σ]).applyTo s).value f =
        ((e.gathered s [σ]).applyTo s).value f := by
    rw [Changes.apply_to_value, Changes.apply_to_value, agree.values f seen]
  refine ⟨_, _, ground e formed, ground _ rewardless, ?_, ?_, ?_, values⟩
  · rw [Changes.apply_to_facts, Changes.apply_to_facts, Changes.revise, Changes.revise, agree.adds,
      agree.deletes]
  · rw [State.total_cost_value, State.total_cost_value]
    exact values _ State.reward_is_not_cost.symm
  · rw [State.reward_value, Changes.apply_to_value, State.reward_value]
    exact Effect.spared_keeps_value "reward" _ spared s [σ] _

/-- All-outcome determinization takes the dice away and nothing else: every outcome of every action has one variant,
which can be used where the action can and does what the outcome does, but for the reward. An action of which
expansion leaves no outcome keeps one variant that does nothing. -/
theorem all_outcomes_are_the_model_without_dice (t t' : Determinizer K) (d : Domain K)
    (strategy : t.strategy = .allOutcome) (domainSet : t.setDomain d = .ok t')
    (formed : d.Within (Vocabulary.numericOperands K)) (distinct : (d.actions.map Action.name).Nodup) :
    ∃ versions, t'.versions = .ok versions ∧ versions.given = d ∧
      (∀ a ∈ d.actions, ∀ args, args.length = a.parameters.length →
        ∃ g os, a.ground args = .ok g ∧ g.effect.expand = .ok os ∧
          ∀ i p e, os[i]? = some (p, e) → ∃ v gv,
            versions.determinized.actions.filter (fun w => w.name == variantName a.name i) = [v] ∧
            v.origin = some ⟨a.name, i, Effect.recorded os p, a.parameters.length⟩ ∧
            v.ground args = .ok gv ∧
            ∀ s, d.Within (Vocabulary.populated K s.world) →
              gv.isApplicable s = g.isApplicable s ∧
              ∃ s₁ s₂, e.apply s = .ok s₁ ∧ gv.effect.apply s = .ok s₂ ∧
                s₂.facts = s₁.facts ∧ s₂.totalCost = s₁.totalCost ∧ s₂.reward = s.reward ∧
                ∀ f, f ≠ rewardAtom.ground → s₂.value f = s₁.value f) ∧
      (∀ a ∈ d.actions, a.effect.expand = .ok [] →
        versions.determinized.actions.filter (fun w => w.name == variantName a.name 0) =
          [{ a with
              name := variantName a.name 0
              effect := .skip
              origin := some ⟨a.name, 0, 1, a.parameters.length⟩ }]) ∧
      (∀ v ∈ versions.determinized.actions, ∃ a ∈ d.actions, ∃ os i, a.effect.expand = .ok os ∧
        v.name = variantName a.name i ∧ (i < os.length ∨ os = [] ∧ i = 0 ∧ v.effect = .skip)) := by
  obtain ⟨d', preprocessed, rfl⟩ := (set_domain_ok_iff t t' d).mp domainSet
  obtain ⟨each, -⟩ := Domain.preprocess_actions d d' preprocessed
  have determinized : (t.strategy.apply d').actions = d'.actions.flatMap AllOutcome.variants := by
    rw [strategy]
    exact classical_actions d' _
  have names : (d'.actions.map Action.name).Nodup := by
    rwa [Domain.preprocess_names _ _ each]
  refine ⟨_, rfl, rfl, ?_, ?_, ?_⟩
  · intro a member args arity
    obtain ⟨b, inPreprocessed, became⟩ := forall_two_left _ _ _ each a member
    obtain ⟨os, expanded, numbering, -⟩ := Action.preprocess_outcomes a b became
    obtain ⟨sameName, sameParameters, samePrecondition⟩ := Action.preprocess_keeps a b became
    let σ := a.assignment args
    refine ⟨a.bind σ, os.map (Effect.mapOutcome (Effect.bind σ)), ?_, ?_, ?_⟩
    · rw [Action.ground, if_pos arity]
    · rw [Action.bind, Effect.expand_bind, expanded]
      rfl
    · intro i p e at_i
      rw [List.getElem?_map] at at_i
      obtain ⟨⟨q, f⟩, found, bound⟩ := Option.map_eq_some_iff.mp at_i
      cases bound
      have numbered := Effect.numbered_at_index os i q f found
      rw [← numbering] at numbered
      have only := AllOutcome.variant_only d'.actions names b inPreprocessed i _ f numbered
      let v := b.variant i (Effect.recorded os q) f.withoutRewards.simplify
      have sameAssignment : v.assignment args = σ := by
        simp only [v, σ, Action.variant, Action.assignment, sameParameters]
      refine ⟨v, v.bind σ, by rw [determinized, ← sameName]; exact only, ?_, ?_, ?_⟩
      · simp only [v, Action.variant, Effect.recorded, List.length_map, sameName, sameParameters]
      · rw [Action.ground, if_pos (by rw [arity]; exact congrArg List.length sameParameters.symm), sameAssignment]
      · intro s inhabited
        refine ⟨by simp only [v, Action.isApplicable, Action.bind, Action.variant, samePrecondition], ?_⟩
        have outcome : (q, f) ∈ os := List.mem_of_getElem? found
        have outcomeFormed := Effect.expand_within _ Query.simplify_stays_numeric _ (formed a member).2 os expanded _
          outcome
        have outcomeInhabited := Effect.expand_within _ (fun _ => id) _ (inhabited a member).2 os expanded _ outcome
        exact variant_follows_outcome f σ s outcomeFormed
          (Effect.within_of_certain _ f outcomeInhabited)
  · intro a member nothing
    obtain ⟨b, inPreprocessed, became⟩ := forall_two_left _ _ _ each a member
    obtain ⟨os, expanded, numbering, shape⟩ := Action.preprocess_outcomes a b became
    cases nothing.symm.trans expanded
    have numbered : b.outcomes[0]? = some (Number.one, .skip) := by
      rw [numbering]
      rfl
    have only := AllOutcome.variant_only d'.actions names b inPreprocessed 0 _ _ numbered
    rw [shape, Number.one_exact] at only
    rw [determinized]
    exact only
  · intro v member
    rw [determinized] at member
    obtain ⟨b, inPreprocessed, variant⟩ := List.mem_flatMap.mp member
    obtain ⟨a, inGiven, became⟩ := forall_two_right _ _ _ each b inPreprocessed
    obtain ⟨os, i, stands⟩ := AllOutcome.variant_stands_for a b became v variant
    exact ⟨a, inGiven, os, i, stands⟩

theorem all_outcomes_are_the_model_without_dice_toss :
    ∃ t' versions v g gv os e s₁ s₂,
      (Determinizer.ofDice .allOutcome (Dice.always (0 : ℚ))).setDomain coins = .ok t' ∧
      t'.versions = .ok versions ∧
      versions.determinized.actions.filter (fun w => w.name == "toss_o0") = [v] ∧
      toss.ground ["cent"] = .ok g ∧ g.effect.expand = .ok os ∧ os[0]? = some (1 / 2, e) ∧
      v.ground ["cent"] = .ok gv ∧
      gv.isApplicable twoCoins.initialState = g.isApplicable twoCoins.initialState ∧
      e.apply twoCoins.initialState = .ok s₁ ∧ gv.effect.apply twoCoins.initialState = .ok s₂ ∧
      s₂.facts = s₁.facts ∧ s₂.reward = twoCoins.initialState.reward := by
  obtain ⟨t', domainSet⟩ :=
    (is_ok_iff ((Determinizer.ofDice .allOutcome (Dice.always (0 : ℚ))).setDomain coins)).mp (by decide +kernel)
  obtain ⟨versions, current, -, each, -, -⟩ :=
    all_outcomes_are_the_model_without_dice _ t' coins rfl domainSet coins_formed (by decide)
  obtain ⟨g, os, grounded, expanded, outcomes⟩ := each toss (by simp [coins]) ["cent"] rfl
  have first : ((toss.ground ["cent"]).toOption.bind fun g =>
      g.effect.expand.toOption.bind fun os => os[0]?.map Prod.fst) = some (1 / 2) := by decide +kernel
  rw [grounded, Except.toOption, Option.bind_some, expanded, Except.toOption, Option.bind_some] at first
  obtain ⟨⟨p, e⟩, at_zero, rfl⟩ := Option.map_eq_some_iff.mp first
  obtain ⟨v, gv, only, -, variant, simulates⟩ := outcomes 0 _ e at_zero
  obtain ⟨applicable, s₁, s₂, outcome, follows, facts, -, reward, -⟩ := simulates twoCoins.initialState coins_populated
  exact ⟨t', versions, v, g, gv, os, e, s₁, s₂, domainSet, current, only, grounded, expanded, at_zero, variant,
    applicable, outcome, follows, facts, reward⟩

theorem settle_negligible (p : K) (e : Effect K) (negligible : p < Number.epsilon) : Effect.settle [(p, e)] = [] := by
  have dropped : Number.le Number.epsilon p = false := decide_eq_false (not_le.mpr negligible)
  have lost : Effect.mass [(p, e)] = p := by simp [Effect.mass, Number.sum_exact]
  simp [Effect.settle, Effect.creditSkip, dropped, lost]

def flicker : Effect ℚ := .probabilistic [(999999 / 1000000, .delete ⟨"seen", []⟩)]

-- A flicker has one outcome, since what is missing to certainty is no more than the tolerance. With many flickers this
-- outcome is most unlikely.
def fade (flickers : Nat) : Action ℚ where
  name := "fade"
  parameters := []
  precondition := .always
  effect := .conj (List.replicate flickers flicker)
  origin := none

def shades (flickers : Nat) : Domain ℚ :=
  ⟨"shades", [.probabilisticEffects], ⟨[]⟩, [], [⟨"seen", []⟩], [], [fade flickers]⟩

theorem flicker_branches : flicker.branches = .ok [(999999 / 1000000, .delete ⟨"seen", []⟩)] := by
  let only : List (ℚ × Effect ℚ) := [(999999 / 1000000, .delete ⟨"seen", []⟩)]
  have tolerated : Number.lt Number.epsilon (Number.one - Effect.mass only) = false := by decide +kernel
  have certain : (999999 / 1000000 : ℚ) * Number.one = 999999 / 1000000 := by rw [Number.one_exact, mul_one]
  calc flicker.branches
      = .ok (Effect.complete (Effect.mass only) [(999999 / 1000000 * Number.one, .delete ⟨"seen", []⟩)]) := rfl
    _ = .ok only := by rw [certain, Effect.complete, tolerated]; rfl

theorem flickers_branches (n : Nat) (choice : ℚ × List (Effect ℚ)) :
    Effect.branchesOfList [choice] (List.replicate n flicker) =
      .ok [(choice.1 * (999999 / 1000000) ^ n, choice.2 ++ List.replicate n (.delete ⟨"seen", []⟩))] := by
  induction n generalizing choice with
  | zero =>
      rw [pow_zero, mul_one]
      simp [Effect.branchesOfList, pure, Except.pure]
  | succ n ih =>
      rw [List.replicate_succ, Effect.branchesOfList, flicker_branches, ok_bind, Effect.cross, List.flatMap_singleton,
        List.map_singleton, ih, pow_succ', mul_assoc, List.append_assoc, List.replicate_succ]
      rfl

theorem fade_expands (n : Nat) (unlikely : (999999 / 1000000 : ℚ) ^ n < Number.epsilon) :
    (fade n).effect.expand = .ok [] := by
  rw [Effect.expand, fade, Effect.branches, flickers_branches, ok_bind]
  refine congrArg Except.ok (settle_negligible _ _ ?_)
  rwa [Number.one_exact, one_mul]

theorem shades_formed (n : Nat) : (shades n).Within (Vocabulary.numericOperands ℚ) := by
  have formed : flicker.Within (Vocabulary.numericOperands ℚ) := by
    simp [flicker, Effect.Within, Effect.WithinOutcomes, Vocabulary.numericOperands]
  intro a known
  rw [List.mem_singleton.mp known]
  refine ⟨trivial, (Effect.within_list _ _).mpr fun e member => ?_⟩
  rw [List.eq_of_mem_replicate member]
  exact formed

theorem fade_built (n : Nat) : (fade n).effect.Built := by
  have plain : (.delete ⟨"seen", []⟩ : Effect ℚ).Built := Effect.built_certain _ rfl
  have built : flicker.Built := by
    rw [flicker, Effect.built_choice, Effect.is_distribution_iff, List.forall_mem_singleton, List.forall_mem_singleton]
    exact ⟨by decide +kernel, plain⟩
  refine (Effect.built_conj _).mpr fun e member => ?_
  rw [List.eq_of_mem_replicate member]
  exact built

theorem halved (n : Nat) (positive : 0 < n) : ((n : ℚ) / (n + 1)) ^ n ≤ 1 / 2 := by
  have positive : (0 : ℚ) < n := Nat.cast_pos.mpr positive
  have doubled : 2 ≤ (1 + 1 / (n : ℚ)) ^ n :=
    calc (2 : ℚ) = 1 + n * (1 / n) := by rw [mul_one_div_cancel positive.ne', one_add_one_eq_two]
      _ ≤ (1 + 1 / (n : ℚ)) ^ n := one_add_mul_le_pow ((neg_nonpos.mpr zero_le_two).trans (one_div_pos.mpr positive).le) n
  rw [one_add_div positive.ne'] at doubled
  rw [← inv_div, inv_pow, one_div]
  exact inv_anti₀ two_pos doubled

theorem flickers_unlikely : (999999 / 1000000 : ℚ) ^ (999999 * 20) < Number.epsilon := by
  have half := halved 999999 (by decide)
  have base : ((999999 : Nat) : ℚ) / ((999999 : Nat) + 1) = 999999 / 1000000 := by decide +kernel
  rw [base] at half
  calc (999999 / 1000000 : ℚ) ^ (999999 * 20) = ((999999 / 1000000) ^ 999999) ^ 20 := pow_mul _ _ _
    _ ≤ (1 / 2) ^ 20 := pow_le_pow_left₀ (pow_nonneg (by decide +kernel) _) half 20
    _ < Number.epsilon := by decide +kernel

/-- No outcome is left of the action, but it is not left out. -/
theorem an_action_without_outcomes_has_a_variant :
    let a := fade (999999 * 20)
    ∃ d t' versions, d.actions = [a] ∧ a.effect.Built ∧ d.Within (Vocabulary.numericOperands ℚ) ∧
      (Determinizer.ofDice .allOutcome (Dice.always (0 : ℚ))).setDomain d = .ok t' ∧ t'.versions = .ok versions ∧
      a.effect.expand = .ok [] ∧
      versions.determinized.actions = [⟨"fade_o0", [], .always, .skip, some ⟨"fade", 0, Number.one, 0⟩⟩] := by
  intro a
  have nothing : a.effect.expand = .ok [] := fade_expands _ flickers_unlikely
  have becomes : a.preprocess = .ok { a with effect := .skip } := by
    rw [Action.preprocess, nothing]
    rfl
  have preprocessed : (shades (999999 * 20)).preprocess = .ok { shades (999999 * 20) with
      actions := [{ a with effect := .skip }] } := by
    rw [Domain.preprocess, shades, List.mapM_cons, becomes]
    rfl
  exact ⟨shades (999999 * 20), _, _, rfl, fade_built _, shades_formed _,
    (set_domain_ok_iff _ _ _).mpr ⟨_, preprocessed, rfl⟩, rfl, nothing, classical_actions _ _⟩

-- A single flicker has the action of its outcome and no other.
example : (do
      let t ← (Determinizer.ofDice .allOutcome (Dice.always (0 : ℚ))).setDomain (shades 1)
      let versions ← t.versions
      pure (versions.determinized.actions.map fun a : Action ℚ => (a.name, a.origin))).toOption =
    some [("fade_o0", some ⟨"fade", 0, 1, 0⟩)] := by decide +kernel

end Replan
