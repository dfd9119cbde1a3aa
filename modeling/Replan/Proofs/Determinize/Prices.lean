import Mathlib.Algebra.Order.BigOperators.GroupWithZero.List
import Mathlib.NumberTheory.Padics.PadicVal.Basic
import Mathlib.Tactic.Ring
import Replan.Proofs.Determinize.Chances
import Replan.Proofs.Determinize.Classical
import Replan.Proofs.Determinize.Decoding

set_option autoImplicit false

namespace Replan

open Results

-- What the traced outcomes cost on balance, each in the state in which its step is taken: the change that the
-- outcome makes of the total cost, less the change that it makes of the reward.
inductive NetCosts {R : Type} [Number R] (p : Problem R) :
    State R → List (OutcomeTrace R) → List (State R) → List R → Prop
  | done (s : State R) : NetCosts p s [] [] []
  | step (s s' after : State R) (o : OutcomeTrace R) (g : Action R) (os : List (R × Effect R)) (e : Effect R)
      (rest : List (OutcomeTrace R)) (states : List (State R)) (nets : List R) :
      p.outcomesIn s o.base = .ok (g, os) → (Effect.numbered os)[o.outcome]? = some (o.probability, e) →
      e.apply s = .ok after → NetCosts p s' rest states nets →
      NetCosts p s (o :: rest) (s' :: states) ((after.totalCost - s.totalCost - (after.reward - s.reward)) :: nets)

variable {K : Type} [ExactNumber K]

def AlphaCost.paid (pricing : Pricing K) (o : OutcomeTrace K) (net : K) : K :=
  pricing.alpha * net + likelihoodCost pricing o.probability

section Runs

variable (p : Problem K) (pricing : Pricing K) (versions : Versions K)
  (each : List.Forall₂ (fun a b => a.preprocess = .ok b) p.domain.actions versions.preprocessed.actions)
  (distinct : (p.domain.actions.map Action.name).Nodup)
  (priceable : ∀ b ∈ versions.preprocessed.actions, ∀ outcome ∈ b.outcomes, outcome.2.Priceable p.world)
  (t : Determinizer K) (current : t.versions = .ok versions)
  (actions : versions.determinized.actions =
    versions.preprocessed.actions.flatMap (Strategy.alphaCost pricing).variants)
  (names : (versions.determinized.actions.map Action.name).Nodup)
  (q : Problem K) (same : q.domain.actions = versions.determinized.actions)

include each distinct priceable current actions names same

theorem step_pays (s s' : State K) (world : s.world = p.world) (step : Ground) (g : Action K) (goal : Option (Goal K))
    (grounded : q.ground step = .ok g) (applied : g.apply s goal = .ok (some s')) :
    ∃ o gb os e after, t.trace step = .ok o ∧ 0 < o.probability ∧ p.outcomesIn s o.base = .ok (gb, os) ∧
      (Effect.numbered os)[o.outcome]? = some (o.probability, e) ∧ e.apply s = .ok after ∧ s'.world = p.world ∧
      s'.totalCost = s.totalCost +
        AlphaCost.paid pricing o (after.totalCost - s.totalCost - (after.reward - s.reward)) := by
  obtain ⟨b, member, i, outcome, found, arity, -, rfl, traced⟩ := variant_instance (.alphaCost pricing) rfl t versions
    current actions names q same step g grounded
  obtain ⟨a, known, became⟩ := forall_two_right _ _ _ each b member
  have isOutcome : outcome ∈ b.outcomes := List.mem_of_getElem? found
  have fit : outcome.2.Priceable s.world := world ▸ priceable b member outcome isOutcome
  obtain ⟨holds, leads⟩ := instance_applied _ _ ((Strategy.alphaCost pricing).commit_deterministic b i outcome
    (Effect.within_deterministic _ id _ fit.formed)) s s' goal applied
  obtain ⟨gb, os, -, listed, numbering, -, -⟩ :=
    base_step p distinct a b known became i outcome found step.args arity s holds
  obtain ⟨after, changed, net⟩ := Effect.outcome_nets outcome.2 (b.assignment step.args) s fit
  refine ⟨_, gb, os, _, after, traced, Action.preprocess_chanced a b became outcome isOutcome, listed, numbering, changed,
    leads.world.trans world, ?_⟩
  rw [AlphaCost.paid, ← net, State.total_cost_value, leads.values _ State.reward_is_not_cost.symm, State.total_cost_value]
  exact AlphaCost.variant_pays pricing outcome.1 outcome.2 s fit [b.assignment step.args] _

theorem run_pays (s : State K) (world : s.world = p.world) (plan : Plan) (states : List (State K))
    (executed : Executes q s plan states) :
    ∃ traces nets, plan.mapM t.trace = .ok traces ∧ (∀ o ∈ traces, 0 < o.probability) ∧
      NetCosts p s traces states nets ∧
      (states.getLastD s).totalCost = s.totalCost + (List.zipWith (AlphaCost.paid pricing) traces nets).sum := by
  induction executed with
  | done s => exact ⟨[], [], rfl, by simp, .done s, (add_zero _).symm⟩
  | step s s' step g goal rest states grounded applied _ ih =>
      obtain ⟨o, gb, os, e, after, traced, chanced, listed, isOutcome, changed, world', cost⟩ :=
        step_pays p pricing versions each distinct priceable t current actions names q same s s' world step g goal
          grounded applied
      obtain ⟨traces, nets, others, positive, costs, total⟩ := ih world'
      refine ⟨o :: traces, _ :: nets, ?_, List.forall_mem_cons.mpr ⟨chanced, positive⟩,
        .step s s' after o gb os e traces states nets listed isOutcome changed costs, ?_⟩
      · rw [map_m_ok_iff] at others ⊢
        exact .cons traced others
      · rw [List.getLastD_cons, total, cost, List.zipWith_cons_cons, List.sum_cons, add_assoc]

end Runs

theorem likelihoods_multiply (pricing : Pricing K) (free : pricing.alpha = 0) (exactly : pricing.round = none)
    (atOne : ExactNumber.ln (1 : K) = 0)
    (product : ∀ x y : K, 0 < x → 0 < y → ExactNumber.ln (x * y) = ExactNumber.ln x + ExactNumber.ln y)
    (p : Problem K) (s : State K) (traces : List (OutcomeTrace K)) (states : List (State K)) (nets : List K)
    (positive : ∀ o ∈ traces, 0 < o.probability) (costs : NetCosts p s traces states nets) :
    (List.zipWith (AlphaCost.paid pricing) traces nets).sum =
      traces.length * pricing.base - ExactNumber.ln (traces.map OutcomeTrace.probability).prod := by
  induction costs with
  | done s => simp [atOne]
  | step s s' after o g os e rest states nets _ _ _ _ ih =>
      obtain ⟨first, others⟩ := List.forall_mem_cons.mp positive
      have together : 0 < (rest.map OutcomeTrace.probability).prod :=
        List.prod_pos fun x member => by
          obtain ⟨o, known, rfl⟩ := List.mem_map.mp member
          exact others o known
      have price : AlphaCost.paid pricing o (after.totalCost - s.totalCost - (after.reward - s.reward)) =
          pricing.base - ExactNumber.ln o.probability := by
        rw [AlphaCost.paid, free, zero_mul, zero_add, AlphaCost.likelihoodCost, exactly]
        rfl
      rw [List.zipWith_cons_cons, List.sum_cons, ih others, price, List.map_cons, List.prod_cons,
        product _ _ first together, List.length_cons, Nat.cast_add, Nat.cast_one]
      ring

/-- A plan pays `alpha` times the net cost of each outcome that it commits to, and the price of its likelihood. Where
own costs count for nothing that comes to the logarithm of the probability of the plan. -/
theorem plans_pay_likelihoods_and_net_costs (t t' t'' : Determinizer K) (p p' : Problem K) (pricing : Pricing K)
    (strategy : t.strategy = .alphaCost pricing) (domainSet : t.setDomain p.domain = .ok t')
    (completed : t'.determinize p = .ok (p', t'')) (distinct : (p.domain.actions.map Action.name).Nodup)
    (formed : p.domain.Within (Vocabulary.numericOperands K))
    (inhabited : p.domain.Within (Vocabulary.populated K p.world))
    (additive : p.domain.Within (Vocabulary.additive K)) (plan : Plan) (states : List (State K))
    (executed : Executes p' p'.initialState plan states) :
    ∃ traces nets, plan.mapM t''.trace = .ok traces ∧ NetCosts p p'.initialState traces states nets ∧
      (states.getLastD p'.initialState).totalCost = p'.initialState.totalCost +
        (List.zipWith (fun o net => pricing.alpha * net + AlphaCost.likelihoodCost pricing o.probability)
          traces nets).sum ∧
      (pricing.alpha = 0 → pricing.round = none → ExactNumber.ln (1 : K) = 0 →
        (∀ x y : K, 0 < x → 0 < y → ExactNumber.ln (x * y) = ExactNumber.ln x + ExactNumber.ln y) →
        ∃ probability, t''.successProbability plan = .ok probability ∧
          (states.getLastD p'.initialState).totalCost =
            p'.initialState.totalCost + plan.length * pricing.base - ExactNumber.ln probability) := by
  obtain ⟨d, preprocessed, current, made⟩ := t.completed t' t'' p.domain p p' domainSet completed
  obtain ⟨each, shape⟩ := Domain.preprocess_actions p.domain d preprocessed
  obtain ⟨versions, current', -, -, actions, names⟩ := domain_set t t' p.domain domainSet distinct
  cases current.symm.trans current'
  have wheelless : t.strategy.usesWheel = false := by rw [strategy]; rfl
  have world : p'.initialState.world = p.world := by
    rw [Problem.initialState, State.of_facts_world, made]
    exact t.strategy.classical_world wheelless d p t.dice shape
  have same : p'.domain.actions = (t.strategy.apply d).actions := by
    rw [made, Strategy.complete_domain]
    rfl
  have priceable : ∀ b ∈ d.actions, ∀ outcome ∈ b.outcomes, outcome.2.Priceable p.world := by
    intro b member outcome isOutcome
    exact ⟨(Domain.preprocess_within _ Query.numeric_kept _ _ each formed b member).2 outcome isOutcome,
      (Domain.preprocess_within _ (fun _ => id) _ _ each inhabited b member).2 outcome isOutcome,
      (Domain.preprocess_within _ (fun _ => id) _ _ each additive b member).2 outcome isOutcome⟩
  obtain ⟨traces, nets, traced, positive, costs, total⟩ := run_pays p pricing _ each distinct priceable t''
    ((determinize_keeps t' t'' p p' completed).trans current) (strategy ▸ actions) names p' same p'.initialState world
    plan states executed
  refine ⟨traces, nets, traced, costs, total, fun free exactly atOne product => ?_⟩
  refine ⟨(traces.map OutcomeTrace.probability).prod, ?_, ?_⟩
  · rw [Determinizer.successProbability, trace_plan, traced]
    rfl
  · rw [total, likelihoods_multiply pricing free exactly atOne product p _ traces states nets positive costs,
      ((map_m_ok_iff _ _ _).mp traced).length_eq, add_sub_assoc]

theorem coins_additive : coins.Within (Vocabulary.additive ℚ) := by
  have other : ¬Effect.isTotal (⟨"tosses", []⟩ : Atom).ground := by
    simp [Effect.isTotal, Atom.ground, rewardAtom, totalCostAtom]
  simp [Domain.Within, coins, toss, polish, Action.Within, Query.Within, Query.WithinList, Effect.Within,
    Effect.WithinList, Effect.WithinOutcomes, Vocabulary.additive, other]

@[reducible]
def binaryLogarithms : ExactNumber ℚ :=
  { (inferInstance : ExactNumber ℚ) with ln := fun x => padicValRat 2 x }

theorem plans_pay_likelihoods_and_net_costs_toss :
    letI := binaryLogarithms
    (∃ t' p' t'' s' traces nets,
      (Determinizer.ofDice (.alphaCost ⟨3, 5, none⟩) (Dice.always (0 : ℚ))).setDomain twoCoins.domain = .ok t' ∧
      t'.determinize twoCoins = .ok (p', t'') ∧ Executes p' p'.initialState [⟨"toss_o0", ["cent"]⟩] [s'] ∧
      NetCosts twoCoins p'.initialState traces [s'] nets ∧
      s'.totalCost = p'.initialState.totalCost + (List.zipWith (fun o net =>
        3 * net + AlphaCost.likelihoodCost ⟨3, 5, none⟩ o.probability) traces nets).sum) ∧
    ∃ t' p' t'' s',
      (Determinizer.ofDice (.alphaCost ⟨0, 5, none⟩) (Dice.always (0 : ℚ))).setDomain twoCoins.domain = .ok t' ∧
      t'.determinize twoCoins = .ok (p', t'') ∧ Executes p' p'.initialState [⟨"toss_o0", ["cent"]⟩] [s'] ∧
      t''.successProbability [⟨"toss_o0", ["cent"]⟩] = .ok (1 / 2) ∧ ExactNumber.ln (1 / 2 : ℚ) = -1 ∧
      s'.totalCost = p'.initialState.totalCost + (1 : Nat) * 5 - ExactNumber.ln (1 / 2 : ℚ) := by
  let := binaryLogarithms
  have tossed : ∀ alpha ∈ [(3 : ℚ), 0], (do
      let t' ← (Determinizer.ofDice (.alphaCost ⟨alpha, 5, none⟩) (Dice.always (0 : ℚ))).setDomain twoCoins.domain
      let completed ← t'.determinize twoCoins
      let g ← completed.1.ground ⟨"toss_o0", ["cent"]⟩
      let next ← g.apply completed.1.initialState none
      let probability ← completed.2.successProbability [⟨"toss_o0", ["cent"]⟩]
      pure (next.isSome, probability)).toOption = some (true, 1 / 2) := by decide +kernel
  have run (alpha : ℚ) (chosen : alpha ∈ [(3 : ℚ), 0]) : ∃ t' p' t'' s',
      (Determinizer.ofDice (.alphaCost ⟨alpha, 5, none⟩) (Dice.always (0 : ℚ))).setDomain twoCoins.domain = .ok t' ∧
      t'.determinize twoCoins = .ok (p', t'') ∧ Executes p' p'.initialState [⟨"toss_o0", ["cent"]⟩] [s'] ∧
      t''.successProbability [⟨"toss_o0", ["cent"]⟩] = .ok (1 / 2) := by
    have taken := tossed alpha chosen
    rw [to_option_iff] at taken
    simp only [bind_ok_iff, pure_ok_iff, Prod.mk.injEq, Option.isSome_iff_exists] at taken
    obtain ⟨t', domainSet, ⟨p', t''⟩, completed, g, grounded, _, applied, _, traced, ⟨s', rfl⟩, rfl⟩ := taken
    exact ⟨t', p', t'', s', domainSet, completed, .step _ s' _ g none [] [] grounded applied (.done s'), traced⟩
  have atOne : ExactNumber.ln (1 : ℚ) = 0 := congrArg Int.cast padicValRat.one
  have product (x y : ℚ) (left : 0 < x) (right : 0 < y) :
      ExactNumber.ln (x * y) = ExactNumber.ln x + ExactNumber.ln y := by
    have exponents : padicValRat 2 (x * y) = padicValRat 2 x + padicValRat 2 y := padicValRat.mul left.ne' right.ne'
    exact (congrArg Int.cast exponents).trans (Int.cast_add _ _)
  refine ⟨?_, ?_⟩
  · obtain ⟨t', p', t'', s', domainSet, completed, executed, -⟩ := run 3 (by simp)
    obtain ⟨traces, nets, -, costs, total, -⟩ := plans_pay_likelihoods_and_net_costs _ t' t'' twoCoins p' ⟨3, 5, none⟩
      rfl domainSet completed (by decide) coins_formed coins_populated coins_additive _ _ executed
    exact ⟨t', p', t'', s', traces, nets, domainSet, completed, executed, costs, total⟩
  · obtain ⟨t', p', t'', s', domainSet, completed, executed, traced⟩ := run 0 (by simp)
    obtain ⟨-, -, -, -, -, free⟩ := plans_pay_likelihoods_and_net_costs _ t' t'' twoCoins p' ⟨0, 5, none⟩
      rfl domainSet completed (by decide) coins_formed coins_populated coins_additive _ _ executed
    obtain ⟨probability, again, total⟩ := free rfl rfl atOne product
    cases traced.symm.trans again
    exact ⟨t', p', t'', s', domainSet, completed, executed, traced, by decide +kernel, total⟩

end Replan
