import Replan.Proofs.Determinize.Classical
import Replan.Proofs.Determinize.Decoding
import Replan.Proofs.Effect.Oblivious

set_option autoImplicit false

namespace Replan

open Results

section Lookup

variable {R : Type} [Number R]

theorem AlphaCost.kept_listed (pricing : Pricing R) (bs : List (Action R)) (distinct : (bs.map Action.name).Nodup)
    (b : Action R) (member : b ∈ bs) (i : Nat) (outcome : R × Effect R) (found : b.outcomes[i]? = some outcome)
    (impure : isPure (priced pricing outcome.2) = false) :
    (bs.flatMap (variants pricing)).find? (fun a => a.name == variantName b.name i) =
      some ((Strategy.alphaCost pricing).commit b i outcome) := by
  have listed : (Strategy.alphaCost pricing).commit b i outcome ∈ bs.flatMap (variants pricing) :=
    List.mem_flatMap.mpr ⟨b, member, (mem_variants pricing b _).mpr ⟨i, outcome, found, impure, rfl⟩⟩
  exact action_by_name _ ((Strategy.alphaCost pricing).names_distinct bs distinct) _ listed

theorem AlphaCost.pure_unlisted (pricing : Pricing R) (bs : List (Action R)) (distinct : (bs.map Action.name).Nodup)
    (b : Action R) (member : b ∈ bs) (i : Nat) (outcome : R × Effect R) (found : b.outcomes[i]? = some outcome)
    (pure : isPure (priced pricing outcome.2) = true) :
    (bs.flatMap (variants pricing)).find? (fun a => a.name == variantName b.name i) = none := by
  refine List.find?_eq_none.mpr fun v listed named => ?_
  obtain ⟨c, known, inFamily⟩ := List.mem_flatMap.mp listed
  obtain ⟨j, other, isOutcome, impure, rfl⟩ := (mem_variants pricing c v).mp inFamily
  obtain ⟨sameBase, rfl⟩ := variant_name_injective _ _ _ _ (beq_iff_eq.mp named)
  obtain rfl := List.inj_on_of_nodup_map distinct known member sameBase
  cases found.symm.trans isOutcome
  exact Bool.false_ne_true (impure.symm.trans pure)

end Lookup

section States

variable {R : Type} [Number R] {s t : State R}

theorem State.Twins.after (twins : s.Twins t) (s' t' : State R) (c c' : Changes R) (leads : c.Lead s s')
    (leads' : c'.Lead t t') (agree : Changes.Agree Effect.isTotal c c') : s'.Twins t' where
  facts := by rw [leads.facts, leads'.facts, Changes.revise, Changes.revise, agree.adds, agree.deletes, twins.facts]
  world := by rw [leads.world, leads'.world, twins.world]
  values f seen := by
    have notReward : f ≠ rewardAtom.ground := fun reward => seen (.inl reward)
    rw [leads.values f notReward, leads'.values f notReward, agree.values f seen, twins.values f seen]

theorem nothing_leads (s : State R) : Changes.none.Lead s s := ⟨rfl, rfl, fun _ _ => rfl⟩

theorem Determinizer.classical_start (strategy : Strategy R) (wheelless : strategy.usesWheel = false) (p : Problem R)
    (d : Domain R) (shape : d = { p.domain with actions := d.actions }) :
    (classicalProblem (strategy.apply d) p).initialState.Twins p.initialState := by
  refine ⟨?_, ?_, fun f seen => ?_⟩
  · rw [Problem.initialState, Problem.initialState, State.of_facts_facts, State.of_facts_facts]
    rfl
  · have world := strategy.classical_world wheelless d p (Dice.always Number.zero) shape
    rw [strategy.complete_keeps wheelless] at world
    rw [Problem.initialState, Problem.initialState, State.of_facts_world, State.of_facts_world, world]
  · rw [Problem.initialState, Problem.initialState, State.of_facts_value, State.of_facts_value]
    exact latest_classical _ p.init.values f seen _

end States

variable {K : Type} [ExactNumber K]

theorem AllOutcome.variant_gathered (e : Effect K) (s : State K)
    (formed : e.Within (Vocabulary.numericOperands K).certain)
    (inhabited : e.Within (Vocabulary.populated K s.world).certain) (σs : List Substitution) :
    Changes.Agree Effect.isTotal (e.withoutRewards.simplify.gathered s σs) (e.gathered s σs) :=
  Effect.rewritten_gathered Effect.isTotal e _ s σs
    (Changes.agree_hiding _ (fun _ => .inl) (Effect.without_rewards_gathered e s σs))
    (Effect.unless_of_within _ _ e formed)
    (Effect.within_of_certain _ _ (Effect.unless_of_within _ _ e inhabited))

-- Neither whether an action can be used nor what it does beyond the totals depends on the totals.
structure Action.Oblivious (a : Action K) : Prop where
  precondition : a.precondition.Within (Vocabulary.unread K)
  effect : a.effect.Oblivious

structure Action.Prunable (world : Universe) (b : Action K) : Prop where
  unread : b.precondition.Within (Vocabulary.unread K)
  formed : ∀ outcome ∈ b.outcomes, outcome.2.Within (Vocabulary.numericOperands K).certain
  inhabited : ∀ outcome ∈ b.outcomes, outcome.2.Within (Vocabulary.populated K world).certain
  oblivious : ∀ outcome ∈ b.outcomes, outcome.2.Oblivious

section Runs

variable (pricing : Pricing K) (versions : Versions K)
  (distinct : (versions.preprocessed.actions.map Action.name).Nodup) (world : Universe)
  (prunable : ∀ b ∈ versions.preprocessed.actions, b.Prunable world)
  (t : Determinizer K) (current : t.versions = .ok versions)
  (actions : versions.determinized.actions =
    versions.preprocessed.actions.flatMap (Strategy.allOutcome : Strategy K).variants)
  (names : (versions.determinized.actions.map Action.name).Nodup)
  (q r : Problem K) (all : q.domain.actions = versions.determinized.actions)
  (kept : r.domain.actions = versions.preprocessed.actions.flatMap (AlphaCost.variants pricing))

include distinct prunable current actions names all kept

theorem step_pruned (s s' w : State K) (twins : s.Twins w) (there : s.world = world) (step : Ground) (g : Action K)
    (goal : Option (Goal K)) (grounded : q.ground step = .ok g) (applied : g.apply s goal = .ok (some s')) :
    s'.world = world ∧
      (((r.domain.action? step.name).isSome = true ∧
        ∃ h w', r.ground step = .ok h ∧ h.apply w none = .ok (some w') ∧ s'.Twins w') ∨
      ((r.domain.action? step.name).isSome = false ∧ s'.Twins w)) := by
  obtain ⟨b, member, i, outcome, found, arity, named, rfl, -⟩ := variant_instance .allOutcome rfl t versions current
    actions names q all step g grounded
  obtain ⟨unread, formed, inhabited, oblivious⟩ := prunable b member
  have isOutcome : outcome ∈ b.outcomes := List.mem_of_getElem? found
  have formed := formed outcome isOutcome
  have deterministic := Effect.within_deterministic _ id _ formed
  let σ := b.assignment step.args
  obtain ⟨holds, leads⟩ := instance_applied _ σ (Strategy.allOutcome.commit_deterministic b i outcome deterministic) s s' goal
    applied
  have here : outcome.2.Within (Vocabulary.populated K s.world).certain := there ▸ inhabited outcome isOutcome
  have outcomes := AllOutcome.variant_gathered outcome.2 s formed here [σ]
  refine ⟨leads.world.trans there, ?_⟩
  rw [Domain.action?, kept, named]
  cases pure : AlphaCost.isPure (AlphaCost.priced pricing outcome.2) with
  | true =>
      refine .inr ⟨by rw [AlphaCost.pure_unlisted pricing _ distinct b member i outcome found pure]; rfl, ?_⟩
      have idle := AlphaCost.pure_gathered pricing outcome.2 s formed here pure [σ]
      exact twins.after s' w _ _ leads (nothing_leads w) (Changes.agree_trans outcomes (Changes.agree_symm idle))
  | false =>
      have listed := AlphaCost.kept_listed pricing _ distinct b member i outcome found pure
      refine .inl ⟨by rw [listed]; rfl, ?_⟩
      let v := (Strategy.alphaCost pricing).commit b i outcome
      have applicable : (v.bind σ).isApplicable w = true := by
        have asked : (b.precondition.bind σ).holds s = true := holds
        rw [Query.holds_bind, b.precondition.eval_alike _ s w twins.reads unread, ← Query.holds_bind] at asked
        exact asked
      have certain := (Strategy.alphaCost pricing).commit_deterministic b i outcome deterministic
      obtain ⟨w', taken⟩ := instance_applies v σ certain w none applicable
      obtain ⟨-, follows⟩ := instance_applied v σ certain w w' none taken
      refine ⟨v.bind σ, w', ?_, taken, twins.after s' w' _ _ leads follows ?_⟩
      · refine (problem_ground_ok_iff r step _).mpr ⟨v, ?_, (ground_ok_iff v step.args _).mpr ⟨arity, rfl⟩⟩
        rw [Domain.action?, kept, named, listed]
      · have priced := AlphaCost.variant_gathered pricing outcome.2 w formed (twins.world ▸ here) outcome.1 [σ]
        have alike := Effect.oblivious_gathered twins outcome.2 (oblivious outcome isOutcome) [σ]
        exact Changes.agree_trans (Changes.agree_trans outcomes alike) (Changes.agree_symm priced)

theorem run_pruned (s w : State K) (twins : s.Twins w) (there : s.world = world) (plan : Plan)
    (states : List (State K)) (executed : Executes q s plan states) :
    ∃ others, Executes r w (plan.filter fun step => (r.domain.action? step.name).isSome) others ∧
      (states.getLastD s).Twins (others.getLastD w) := by
  induction executed generalizing w with
  | done s => exact ⟨[], .done w, twins⟩
  | step s s' step g goal rest states grounded applied _ ih =>
      obtain ⟨there', ⟨isKept, h, w', again, taken, twins'⟩ | ⟨dropped, twins'⟩⟩ := step_pruned pricing versions distinct
        world prunable t current actions names q r all kept s s' w twins there step g goal grounded applied
      · obtain ⟨others, executed, last⟩ := ih w' twins' there'
        refine ⟨w' :: others, ?_, by rwa [List.getLastD_cons, List.getLastD_cons]⟩
        rw [List.filter_cons, if_pos isKept]
        exact .step w w' step h none _ others again taken executed
      · obtain ⟨others, executed, last⟩ := ih w twins' there'
        refine ⟨others, ?_, by rwa [List.getLastD_cons]⟩
        rwa [List.filter_cons, dropped, if_neg Bool.false_ne_true]

end Runs

theorem Action.preprocess_prunable (world : Universe) (as bs : List (Action K))
    (each : List.Forall₂ (fun a b => a.preprocess = .ok b) as bs)
    (formed : ∀ a ∈ as, a.Within (Vocabulary.numericOperands K))
    (inhabited : ∀ a ∈ as, a.Within (Vocabulary.populated K world)) (oblivious : ∀ a ∈ as, a.Oblivious) :
    ∀ b ∈ bs, b.Prunable world := by
  intro b member
  obtain ⟨a, known, became⟩ := forall_two_right _ _ _ each b member
  refine ⟨?_, preprocess_within _ Query.numeric_kept a b (formed a known).2 became,
    preprocess_within _ (fun _ => id) a b (inhabited a known).2 became,
    preprocess_becomes Effect.oblivious_expands a b (oblivious a known).effect became⟩
  rw [(preprocess_keeps a b became).2.2]
  exact (oblivious a known).precondition

/-- A plan over all outcomes that leaves out the steps that alpha-cost determinization has pruned can still be
executed, and ends alike but for the totals. -/
theorem pruned_plans_end_alike (t t' t'' u : Determinizer K) (p q : Problem K) (pricing : Pricing K)
    (all : t.strategy = .allOutcome) (priced : u.strategy = .alphaCost pricing)
    (domainSet : t.setDomain p.domain = .ok t') (completed : t'.determinize p = .ok (q, t''))
    (distinct : (p.domain.actions.map Action.name).Nodup)
    (formed : p.domain.Within (Vocabulary.numericOperands K))
    (inhabited : p.domain.Within (Vocabulary.populated K p.world))
    (oblivious : ∀ a ∈ p.domain.actions, a.Oblivious) :
    ∃ u' r u'', u.setDomain p.domain = .ok u' ∧ u'.determinize p = .ok (r, u'') ∧
      ∀ plan states, Executes q q.initialState plan states →
        ∃ others,
          Executes r r.initialState (plan.filter fun step => (r.domain.action? step.name).isSome) others ∧
          (others.getLastD r.initialState).facts = (states.getLastD q.initialState).facts ∧
          ∀ f, ¬Effect.isTotal f →
            (others.getLastD r.initialState).value f = (states.getLastD q.initialState).value f := by
  obtain ⟨d, preprocessed, current, made⟩ := t.completed t' t'' p.domain p q domainSet completed
  obtain ⟨each, shape⟩ := Domain.preprocess_actions p.domain d preprocessed
  have bases : (d.actions.map Action.name).Nodup := by rwa [Domain.preprocess_names _ _ each]
  rw [t.strategy.complete_keeps (by rw [all]; rfl)] at made
  obtain ⟨u', u'', pricedSet, pricedCompleted⟩ := u.wheelless_completes (by rw [priced]; rfl) p d preprocessed
  refine ⟨u', _, u'', pricedSet, pricedCompleted, fun plan states executed => ?_⟩
  let r := Determinizer.classicalProblem (u.strategy.apply d) p
  have start := Determinizer.classical_start t.strategy (by rw [all]; rfl) p d shape
  have other := Determinizer.classical_start u.strategy (by rw [priced]; rfl) p d shape
  have twins : q.initialState.Twins r.initialState := by
    rw [made]
    exact ⟨start.facts.trans other.facts.symm, start.world.trans other.world.symm,
      fun f seen => (start.values f seen).trans (other.values f seen).symm⟩
  have there : q.initialState.world = p.world := by
    rw [made, start.world]
    exact State.of_facts_world _ _ _
  have actions : (t.strategy.apply d).actions = d.actions.flatMap (Strategy.allOutcome : Strategy K).variants := by
    rw [Strategy.apply_actions, all]
  have kept : r.domain.actions = d.actions.flatMap (AlphaCost.variants pricing) :=
    (u.strategy.apply_actions d).trans (by rw [priced]; rfl)
  have names : ((t.strategy.apply d).actions.map Action.name).Nodup := by
    rw [Strategy.apply_actions]
    exact t.strategy.names_distinct d.actions bases
  obtain ⟨others, executed, last⟩ := run_pruned pricing _ bases p.world
    (Action.preprocess_prunable p.world _ _ each formed inhabited oblivious) t' current actions names q r
    (by rw [made]; rfl) kept q.initialState r.initialState twins there plan states executed
  exact ⟨others, executed, last.facts.symm, fun f seen => (last.values f seen).symm⟩

def flip : Action ℚ where
  name := "flip"
  parameters := [coin]
  precondition := .fact ⟨"ready", [coin]⟩
  effect := .conj [.probabilistic [(1 / 2, .add ⟨"heads", [coin]⟩)], .assign .increase rewardAtom (.constant 1)]
  origin := none

def flippedCoins : Problem ℚ := { twoCoins with domain := { coins with actions := [flip] } }

theorem pruned_plans_end_alike_flip :
    ∃ t' q t'' u' r u'' s₁ s₂ others,
      (Determinizer.ofDice .allOutcome (Dice.always (0 : ℚ))).setDomain flippedCoins.domain = .ok t' ∧
      t'.determinize flippedCoins = .ok (q, t'') ∧
      (Determinizer.ofDice (.alphaCost ⟨1, 0, none⟩) (Dice.always (0 : ℚ))).setDomain flippedCoins.domain = .ok u' ∧
      u'.determinize flippedCoins = .ok (r, u'') ∧
      Executes q q.initialState [⟨"flip_o1", ["cent"]⟩, ⟨"flip_o0", ["cent"]⟩] [s₁, s₂] ∧
      Executes r r.initialState [⟨"flip_o0", ["cent"]⟩] others ∧
      (others.getLastD r.initialState).facts = s₂.facts := by
  have flipped : (do
      let t' ← (Determinizer.ofDice .allOutcome (Dice.always (0 : ℚ))).setDomain flippedCoins.domain
      let completed ← t'.determinize flippedCoins
      let g₁ ← completed.1.ground ⟨"flip_o1", ["cent"]⟩
      let g₂ ← completed.1.ground ⟨"flip_o0", ["cent"]⟩
      let s₁ ← g₁.apply completed.1.initialState none
      let s₂ ← g₂.apply (s₁.getD completed.1.initialState) none
      let u' ← (Determinizer.ofDice (.alphaCost ⟨1, 0, none⟩) (Dice.always (0 : ℚ))).setDomain flippedCoins.domain
      let priced ← u'.determinize flippedCoins
      pure (s₁.isSome && s₂.isSome, [Ground.mk "flip_o1" ["cent"], ⟨"flip_o0", ["cent"]⟩].filter
        fun step : Ground => (priced.1.domain.action? step.name).isSome)).toOption = some (true, [⟨"flip_o0", ["cent"]⟩]) := by
    decide +kernel
  rw [to_option_iff] at flipped
  simp only [bind_ok_iff, pure_ok_iff, Prod.mk.injEq, Bool.and_eq_true, Option.isSome_iff_exists] at flipped
  obtain ⟨t', domainSet, ⟨q, t''⟩, completed, g₁, grounded₁, g₂, grounded₂, _, applied₁, _, applied₂, u', pricedSet,
    ⟨r, u''⟩, pricedCompleted, ⟨⟨s₁, rfl⟩, ⟨s₂, rfl⟩⟩, kept⟩ := flipped
  have executed : Executes q q.initialState [⟨"flip_o1", ["cent"]⟩, ⟨"flip_o0", ["cent"]⟩] [s₁, s₂] :=
    .step _ s₁ _ g₁ none _ _ grounded₁ applied₁ (.step s₁ s₂ _ g₂ none [] [] grounded₂ applied₂ (.done s₂))
  have formed : flippedCoins.domain.Within (Vocabulary.numericOperands ℚ) := by
    simp [Domain.Within, flippedCoins, flip, Action.Within, Query.Within, Effect.Within, Effect.WithinList,
      Effect.WithinOutcomes, Vocabulary.numericOperands, Query.Numeric]
  have inhabited : flippedCoins.domain.Within (Vocabulary.populated ℚ flippedCoins.world) := by
    simp [Domain.Within, flippedCoins, flip, Action.Within, Query.Within, Effect.Within, Effect.WithinList,
      Effect.WithinOutcomes, Vocabulary.populated]
  have oblivious : ∀ a ∈ flippedCoins.domain.actions, a.Oblivious := by
    refine List.forall_mem_singleton.mpr ⟨trivial, ?_⟩
    simp [flip, Effect.Oblivious, Effect.ObliviousList, Effect.ObliviousOutcomes, Effect.isTotal]
  obtain ⟨u₁, r₁, u₂, again, alsoCompleted, reaches⟩ := pruned_plans_end_alike _ t' t''
    (Determinizer.ofDice (.alphaCost ⟨1, 0, none⟩) (Dice.always (0 : ℚ))) flippedCoins q ⟨1, 0, none⟩ rfl rfl domainSet
    completed (by decide) formed inhabited oblivious
  cases pricedSet.symm.trans again
  cases pricedCompleted.symm.trans alsoCompleted
  obtain ⟨others, shortened, facts, -⟩ := reaches _ _ executed
  rw [kept] at shortened
  exact ⟨t', q, t'', u', r, u'', s₁, s₂, others, domainSet, completed, again, alsoCompleted, executed, shortened, facts⟩

end Replan
