import Mathlib.Algebra.Order.BigOperators.Group.List
import Mathlib.Algebra.Order.Field.Basic
import Replan.Proofs.Determinize.Chances
import Replan.Proofs.Determinize.Decoding

set_option autoImplicit false

namespace Replan

open Results

section Draws

variable {K : Type} [ExactNumber K]

def earlier (chances : List K) (i : Nat) : K := (chances.take i).sum

def Selects (chances : List K) (i : Nat) (draw : K) : Prop :=
  earlier chances i ≤ draw ∧ draw < earlier chances (i + 1)

theorem earlier_next (chances : List K) (i : Nat) (p : K) (listed : chances[i]? = some p) :
    earlier chances (i + 1) = earlier chances i + p := by
  rw [earlier, List.take_add_one, List.sum_append, listed]
  exact congrArg _ List.sum_singleton

theorem earlier_nonneg (chances : List K) (positive : ∀ p ∈ chances, 0 < p) (i : Nat) : 0 ≤ earlier chances i :=
  List.sum_nonneg fun p member => (positive p (List.mem_of_mem_take member)).le

theorem earlier_le_sum (chances : List K) (positive : ∀ p ∈ chances, 0 < p) (i : Nat) :
    earlier chances i ≤ chances.sum := by
  have rest : 0 ≤ (chances.drop i).sum :=
    List.sum_nonneg fun p member => (positive p (List.mem_of_mem_drop member)).le
  rw [← List.sum_take_add_sum_drop chances i]
  exact le_add_of_nonneg_right rest

theorem pick_from_iff (chances : List K) (positive : ∀ p ∈ chances, 0 < p) (total draw : K) (low : total ≤ draw)
    (high : draw < total + chances.sum) (i : Nat) (bound : i < chances.length) :
    pickFrom total draw chances = i ↔ total + earlier chances i ≤ draw ∧ draw < total + earlier chances (i + 1) := by
  induction chances generalizing total i with
  | nil => cases bound
  | cons p rest ih =>
      have later (k : Nat) : total + earlier (p :: rest) (k + 1) = total + p + earlier rest k := by
        rw [earlier, List.take_succ_cons, List.sum_cons, ← add_assoc, earlier]
      have first : total + earlier (p :: rest) 0 ≤ draw ∧ draw < total + earlier (p :: rest) 1 ↔ draw < total + p := by
        rw [later, earlier, earlier, List.take_zero, List.take_zero, List.sum_nil, add_zero, add_zero]
        exact and_iff_right low
      obtain ⟨here, others⟩ := List.forall_mem_cons.mp positive
      rw [List.sum_cons, ← add_assoc] at high
      cases rest with
      | nil =>
          obtain rfl : i = 0 := Nat.lt_one_iff.mp bound
          rw [List.sum_nil, add_zero] at high
          exact iff_of_true rfl (first.mpr high)
      | cons q rest =>
          rw [pickFrom]
          by_cases hit : draw < total + p
          · rw [if_pos ((Number.lt_exact _ _).mpr hit)]
            cases i with
            | zero => exact iff_of_true rfl (first.mpr hit)
            | succ k =>
                refine iff_of_false (Nat.succ_ne_zero k).symm fun within => ?_
                rw [later] at within
                exact absurd within.1 (not_le.mpr (lt_add_of_lt_of_nonneg hit (earlier_nonneg _ others k)))
          · rw [if_neg fun less => hit ((Number.lt_exact _ _).mp less)]
            cases i with
            | zero => exact iff_of_false (Nat.succ_ne_zero _) fun within => hit (first.mp within)
            | succ k =>
                rw [Nat.add_right_cancel_iff, later, later]
                exact ih others (total + p) (not_lt.mp hit) high k (Nat.lt_of_succ_lt_succ bound)

theorem pick_outcome_iff (chances : List K) (positive : ∀ p ∈ chances, 0 < p) (whole : chances.sum = 1) (draw : K)
    (low : 0 ≤ draw) (high : draw < 1) (i : Nat) (bound : i < chances.length) :
    pickOutcome chances draw = i ↔ Selects chances i draw := by
  have picked := pick_from_iff chances positive 0 draw low (by rwa [whole, zero_add]) i bound
  rwa [zero_add, zero_add, ← Number.zero_exact] at picked

theorem selected_once (chances : List K) (positive : ∀ p ∈ chances, 0 < p) (whole : chances.sum = 1) (draw : K) :
    0 ≤ draw ∧ draw < 1 ↔ ∃! i, i < chances.length ∧ Selects chances i draw := by
  have nonempty : chances ≠ [] := by
    rintro rfl
    exact zero_ne_one (List.sum_nil.symm.trans whole)
  constructor
  · rintro ⟨low, high⟩
    have bound : pickOutcome chances draw < chances.length := Hindsight.pick_in_range _ draw chances nonempty
    have picked := pick_outcome_iff chances positive whole draw low high
    refine ⟨pickOutcome chances draw, ⟨bound, (picked _ bound).mp rfl⟩, ?_⟩
    rintro i ⟨inList, selected⟩
    exact ((picked i inList).mpr selected).symm
  · rintro ⟨i, ⟨-, selected⟩, -⟩
    exact ⟨(earlier_nonneg chances positive i).trans selected.1,
      selected.2.trans_le (whole ▸ earlier_le_sum chances positive (i + 1))⟩

end Draws

-- The states behind `s` when the steps are sampled one after another, with the draw of each step and the index
-- of the outcome that it selects.
inductive Samples {R : Type} [Number R] (p : Problem R) :
    State R → Dice R → List Ground → List (R × Nat) → List (State R) → Prop
  | done (s : State R) (dice : Dice R) : Samples p s dice [] [] []
  | step (s s' : State R) (dice rolled : Dice R) (step : Ground) (g : Action R) (os : List (R × Effect R))
      (rest : List Ground) (rolls : List (R × Nat)) (states : List (State R)) : p.outcomesIn s step = .ok (g, os) →
      p.sample s step dice = (.ok s', rolled) → Samples p s' rolled rest rolls states →
      Samples p s dice (step :: rest) ((dice.roll.1, pickOutcome (os.map Prod.fst) dice.roll.1) :: rolls) (s' :: states)

variable {K : Type} [ExactNumber K]

def Problem.chances (p : Problem K) (name : String) : List K :=
  match p.domain.action? name with
  | none => []
  | some a =>
      match a.effect.expand with
      | .ok os => os.map Prod.fst
      | .error _ => []

theorem Problem.chances_of (p : Problem K) (name : String) (a : Action K) (os : List (K × Effect K))
    (found : p.domain.action? name = some a) (expanded : a.effect.expand = .ok os) :
    p.chances name = os.map Prod.fst := by
  rw [chances, found]
  simp only [expanded]

theorem Problem.chances_positive (p : Problem K) (name : String) : ∀ x ∈ p.chances name, 0 < x := by
  intro x member
  cases found : p.domain.action? name with
  | none => simp [chances, found] at member
  | some a =>
      cases expanded : a.effect.expand with
      | error e => simp [chances, found, expanded] at member
      | ok os =>
          rw [p.chances_of name a os found expanded] at member
          exact (Effect.chanced_iff os).mp (Effect.expand_chanced a.effect os expanded) x member

theorem Problem.listed_chances (p : Problem K) (s : State K) (step : Ground) (g : Action K) (os : List (K × Effect K))
    (listed : p.outcomesIn s step = .ok (g, os)) : p.chances step.name = os.map Prod.fst := by
  obtain ⟨grounded, -, expanded⟩ := (outcomes_in_ok_iff p s step g os).mp listed
  obtain ⟨a, found, grounded⟩ := (problem_ground_ok_iff p step g).mp grounded
  obtain ⟨-, rfl⟩ := (ground_ok_iff a step.args g).mp grounded
  rw [Action.bind, Effect.expand_bind] at expanded
  obtain ⟨unbound, ofAction, rfl⟩ := (map_ok_iff _ _ _).mp expanded
  rw [p.chances_of _ a unbound found ofAction, List.map_map]
  rfl

theorem Effect.numbered_whole (outcomes : List (K × Effect K)) (whole : (outcomes.map Prod.fst).sum = 1) :
    numbered outcomes = outcomes := by
  rcases outcomes with _ | ⟨⟨p, e⟩, _ | ⟨other, rest⟩⟩
  · exact absurd whole zero_ne_one
  · obtain rfl : p = 1 := List.sum_singleton.symm.trans whole
    rw [numbered, Number.one_exact, ite_self]
  · rfl

structure Problem.Offers (p : Problem K) (o : OutcomeTrace K) : Prop where
  whole : (p.chances o.base.name).sum = 1
  listed : (p.chances o.base.name)[o.outcome]? = some o.probability

theorem Problem.Offers.selects_iff {p : Problem K} {o : OutcomeTrace K} (offers : p.Offers o) (draw : K) :
    Selects (p.chances o.base.name) o.outcome draw ↔
      earlier (p.chances o.base.name) o.outcome ≤ draw ∧
        draw < earlier (p.chances o.base.name) o.outcome + o.probability := by
  rw [Selects, earlier_next _ _ _ offers.listed]

section Runs

variable (p : Problem K)

theorem picks_offered (traces : List (OutcomeTrace K)) (offered : ∀ o ∈ traces, p.Offers o) (s : State K)
    (dice : Dice K) (rolls : List (K × Nat)) (states : List (State K))
    (sampled : Samples p s dice (traces.map OutcomeTrace.base) rolls states)
    (drawn : ∀ roll ∈ rolls, 0 ≤ roll.1 ∧ roll.1 < 1) :
    List.Forall₂ (fun o roll => roll.2 = o.outcome ↔ Selects (p.chances o.base.name) o.outcome roll.1) traces rolls := by
  induction traces generalizing s dice rolls states with
  | nil =>
      cases sampled
      exact .nil
  | cons o rest ih =>
      obtain ⟨offer, others⟩ := List.forall_mem_cons.mp offered
      cases sampled with
      | step s s' dice rolled step g os _ rolls states listed taken sampled =>
          obtain ⟨⟨low, high⟩, drawn⟩ := List.forall_mem_cons.mp drawn
          refine .cons ?_ (ih others s' rolled rolls states sampled drawn)
          rw [← p.listed_chances s o.base g os listed]
          exact pick_outcome_iff _ (p.chances_positive o.base.name) offer.whole _ low high o.outcome
            (List.getElem?_eq_some_iff.mp offer.listed).1

theorem picks_unfold (traces : List (OutcomeTrace K)) (offered : ∀ o ∈ traces, p.Offers o) (s : State K)
    (dice : Dice K) (rolls : List (K × Nat)) (states : List (State K))
    (sampled : Samples p s dice (traces.map OutcomeTrace.base) rolls states)
    (picked : List.Forall₂ (fun o roll => roll.2 = o.outcome) traces rolls) : Unfolds p s traces states := by
  induction traces generalizing s dice rolls states with
  | nil =>
      cases sampled
      exact .done s
  | cons o rest ih =>
      obtain ⟨offer, others⟩ := List.forall_mem_cons.mp offered
      cases sampled with
      | step s s' dice rolled step g os _ rolls states listed taken sampled =>
          cases picked with
          | cons here picked =>
              have chances := p.listed_chances s o.base g os listed
              have inList := offer.listed
              rw [chances, List.getElem?_map] at inList
              obtain ⟨⟨q, e⟩, found, rfl⟩ := Option.map_eq_some_iff.mp inList
              have selected : Problem.drawnEffect os dice.roll.1 = e := by
                rw [Problem.drawnEffect, show pickOutcome (os.map Prod.fst) dice.roll.1 = o.outcome from here, found]
              rw [Problem.sample, listed] at taken
              have next : p.successor s o.base g e = .ok s' := selected ▸ (Prod.mk.inj taken).1
              refine .step s s' o g os e rest states listed ?_ next (ih others s' rolled rolls states sampled picked)
              rwa [Effect.numbered_whole os (chances ▸ offer.whole)]

end Runs

theorem Action.whole_preprocesses (a : Action K) (os : List (K × Effect K)) (expanded : a.effect.expand = .ok os)
    (whole : (os.map Prod.fst).sum = 1) : ∃ b, a.preprocess = .ok b ∧ b.outcomes = os := by
  have chanced := Effect.expand_chanced a.effect os expanded
  have proper : ∀ outcome ∈ os, Effect.isProbability outcome.1 = true := by
    intro outcome member
    have most := List.single_le_sum (fun p listed => ((Effect.chanced_iff os).mp chanced p listed).le) outcome.1
      (List.mem_map_of_mem member)
    rw [whole] at most
    rw [Effect.isProbability, Bool.and_eq_true, Number.le_exact, Number.le_exact, Number.zero_exact, Number.one_exact]
    exact ⟨(chanced outcome member).le, most.trans (le_add_of_nonneg_right Number.epsilon_positive.le)⟩
  have accepted : Effect.probabilistic? os = .ok (.probabilistic os) := by
    rw [Effect.probabilistic?, List.find?_eq_none.mpr fun outcome member => by simp [proper outcome member]]
    simp only
    rw [if_neg]
    rw [Number.lt_exact, Effect.mass_exact, whole, Number.one_exact]
    exact not_lt.mpr (le_add_of_nonneg_right Number.epsilon_positive.le)
  obtain ⟨effect, chosen⟩ : ∃ effect, Action.chooseAmong os = .ok effect := by
    rcases os with _ | ⟨⟨p, e⟩, _ | ⟨other, rest⟩⟩
    · exact ⟨_, rfl⟩
    · rw [Action.chooseAmong]
      split
      · exact ⟨e, rfl⟩
      · exact ⟨_, accepted⟩
    · exact ⟨_, accepted⟩
  have became : a.preprocess = .ok { a with effect } := by
    rw [Action.preprocess, expanded, ok_bind, chosen]
    rfl
  obtain ⟨found, again, numbering, -⟩ := a.preprocess_outcomes _ became
  cases expanded.symm.trans again
  exact ⟨_, became, numbering.trans (Effect.numbered_whole os whole)⟩

def Domain.Whole (d : Domain K) : Prop :=
  ∀ a ∈ d.actions, ∃ os, a.effect.expand = .ok os ∧ (os.map Prod.fst).sum = 1

theorem Domain.whole_set (t : Determinizer K) (d : Domain K) (whole : d.Whole) : ∃ t', t.setDomain d = .ok t' := by
  have accepted : ∀ a ∈ d.actions, ∃ b, a.preprocess = .ok b := by
    intro a member
    obtain ⟨os, expanded, complete⟩ := whole a member
    obtain ⟨b, became, -⟩ := a.whole_preprocesses os expanded complete
    exact ⟨b, became⟩
  obtain ⟨actions, each⟩ := (map_m_succeeds_iff _ _).mpr accepted
  have preprocessed : d.preprocess = .ok { d with actions } := by
    rw [preprocess, each]
    rfl
  exact ⟨_, (set_domain_ok_iff t _ d).mpr ⟨_, preprocessed, rfl⟩⟩

theorem Problem.whole_chances (p : Problem K) (distinct : (p.domain.actions.map Action.name).Nodup) (a : Action K)
    (member : a ∈ p.domain.actions) (os : List (K × Effect K)) (expanded : a.effect.expand = .ok os) :
    p.chances a.name = os.map Prod.fst :=
  p.chances_of a.name a os (action_by_name _ distinct a member) expanded

theorem variant_offered (p : Problem K) (distinct : (p.domain.actions.map Action.name).Nodup) (whole : p.domain.Whole)
    (strategy : Strategy K) (wheelless : strategy.usesWheel = false) (t : Determinizer K) (versions : Versions K)
    (current : t.versions = .ok versions)
    (each : List.Forall₂ (fun a b => a.preprocess = .ok b) p.domain.actions versions.preprocessed.actions)
    (actions : versions.determinized.actions = versions.preprocessed.actions.flatMap strategy.variants)
    (names : (versions.determinized.actions.map Action.name).Nodup) (step : Ground) (v : Action K)
    (listed : v ∈ versions.determinized.actions) (named : v.name = step.name)
    (arity : step.args.length = v.parameters.length) : ∃ o, t.trace step = .ok o ∧ p.Offers o := by
  obtain ⟨b, member, i, outcome, found, -, -, -, traced⟩ := variant_step strategy wheelless t versions current actions
    names step v listed named arity
  obtain ⟨a, known, became⟩ := forall_two_right _ _ _ each b member
  obtain ⟨os, expanded, complete⟩ := whole a known
  obtain ⟨b', again, outcomes⟩ := a.whole_preprocesses os expanded complete
  cases became.symm.trans again
  have chances : p.chances b.name = os.map Prod.fst := by
    rw [(Action.preprocess_keeps a b became).1]
    exact p.whole_chances distinct a known os expanded
  refine ⟨_, traced, ⟨by rw [chances, complete], ?_⟩⟩
  rw [chances, List.getElem?_map, ← outcomes, found]
  rfl

theorem offered_probability (p : Problem K) (t : Determinizer K) (plan : Plan) (traces : List (OutcomeTrace K))
    (traced : plan.mapM t.trace = .ok traces) (offers : ∀ o ∈ traces, p.Offers o) :
    t.successProbability plan = .ok (traces.map fun o =>
      earlier (p.chances o.base.name) (o.outcome + 1) - earlier (p.chances o.base.name) o.outcome).prod := by
  have lengths : traces.map (fun o =>
      earlier (p.chances o.base.name) (o.outcome + 1) - earlier (p.chances o.base.name) o.outcome) =
        traces.map OutcomeTrace.probability :=
    List.map_congr_left fun o member => by rw [earlier_next _ _ _ (offers o member).listed, add_sub_cancel_left]
  rw [Determinizer.successProbability, trace_plan, traced, lengths]
  rfl

/-- The probability of a plan is that of sampling the outcomes that it commits to: the draws that select an outcome
are an interval, and the probability of the plan is the product of the lengths of these intervals. -/
theorem plan_probability_is_sampled (t : Determinizer K) (p : Problem K) (strategy : t.strategy = .allOutcome)
    (distinct : (p.domain.actions.map Action.name).Nodup) (whole : p.domain.Whole) :
    ∃ t' versions, t.setDomain p.domain = .ok t' ∧ t'.versions = .ok versions ∧
      (∀ a ∈ p.domain.actions, ∀ draw, 0 ≤ draw ∧ draw < 1 ↔
        ∃! i, i < (p.chances a.name).length ∧ Selects (p.chances a.name) i draw) ∧
      ∀ plan : Plan,
        (∀ step ∈ plan, ∃ v ∈ versions.determinized.actions, v.name = step.name ∧
          step.args.length = v.parameters.length) →
        ∃ traces, plan.mapM t'.trace = .ok traces ∧
          t'.successProbability plan = .ok (traces.map fun o =>
            earlier (p.chances o.base.name) (o.outcome + 1) - earlier (p.chances o.base.name) o.outcome).prod ∧
          ∀ s dice rolls states, Samples p s dice (traces.map OutcomeTrace.base) rolls states →
            (∀ roll ∈ rolls, 0 ≤ roll.1 ∧ roll.1 < 1) →
            List.Forall₂ (fun o roll => roll.2 = o.outcome ↔
              earlier (p.chances o.base.name) o.outcome ≤ roll.1 ∧
                roll.1 < earlier (p.chances o.base.name) o.outcome + o.probability) traces rolls ∧
            (List.Forall₂ (fun o roll => roll.2 = o.outcome) traces rolls → Unfolds p s traces states) := by
  obtain ⟨t', domainSet⟩ := p.domain.whole_set t whole
  obtain ⟨versions, current, -, preprocessed, actions, names⟩ := domain_set t t' p.domain domainSet distinct
  obtain ⟨each, -⟩ := Domain.preprocess_actions _ _ preprocessed
  have offered := variant_offered p distinct whole t.strategy (by rw [strategy]; rfl) t' versions current each actions
    names
  refine ⟨t', versions, domainSet, current, ?_, ?_⟩
  · intro a member draw
    obtain ⟨os, expanded, complete⟩ := whole a member
    refine selected_once _ (p.chances_positive a.name) ?_ draw
    rw [p.whole_chances distinct a member os expanded, complete]
  · intro plan variants
    have decoded : ∀ step ∈ plan, ∃ o, t'.trace step = .ok o ∧ p.Offers o := by
      intro step member
      obtain ⟨v, listed, named, arity⟩ := variants step member
      exact offered step v listed named arity
    obtain ⟨traces, traced⟩ := (map_m_succeeds_iff t'.trace plan).mpr fun step member =>
      (decoded step member).imp fun _ => And.left
    have offers : ∀ o ∈ traces, p.Offers o := by
      intro o member
      obtain ⟨step, inPlan, known⟩ := forall_two_right _ _ _ ((map_m_ok_iff _ _ _).mp traced) o member
      obtain ⟨o', again, offers⟩ := decoded step inPlan
      cases known.symm.trans again
      exact offers
    refine ⟨traces, traced, offered_probability p t' plan traces traced offers, ?_⟩
    intro s dice rolls states sampled drawn
    refine ⟨?_, picks_unfold p traces offers s dice rolls states sampled⟩
    have picked := picks_offered p traces offers s dice rolls states sampled drawn
    refine ((List.forall₂_and_left traces rolls).mpr ⟨offers, picked⟩).imp fun o roll both => ?_
    exact both.2.trans (both.1.selects_iff roll.1)

theorem coins_whole : coins.Whole := by
  have summed : coins.actions.all (fun a => a.effect.expand.toOption.map (fun os => (os.map Prod.fst).sum) == some 1) =
      true := by decide +kernel
  intro a member
  have one := beq_iff_eq.mp (List.all_eq_true.mp summed a member)
  obtain ⟨os, expanded, whole⟩ := Option.map_eq_some_iff.mp one
  exact ⟨os, (to_option_iff _ _).mp expanded, whole⟩

theorem plan_probability_is_sampled_toss :
    ∃ t' traces s', (Determinizer.ofDice .allOutcome (Dice.always (0 : ℚ))).setDomain twoCoins.domain = .ok t' ∧
      [Ground.mk "toss_o1" ["cent"]].mapM t'.trace = .ok traces ∧
      t'.successProbability [⟨"toss_o1", ["cent"]⟩] = .ok (1 / 4) ∧
      Samples twoCoins twoCoins.initialState (Dice.always (3 / 5)) (traces.map OutcomeTrace.base) [(3 / 5, 1)] [s'] ∧
      Unfolds twoCoins twoCoins.initialState traces [s'] := by
  have tossed : (do
      let t' ← (Determinizer.ofDice .allOutcome (Dice.always (0 : ℚ))).setDomain twoCoins.domain
      let versions ← t'.versions
      let traces ← [Ground.mk "toss_o1" ["cent"]].mapM t'.trace
      let probability ← t'.successProbability [⟨"toss_o1", ["cent"]⟩]
      let listed ← twoCoins.outcomesIn twoCoins.initialState ⟨"toss", ["cent"]⟩
      let _ ← (twoCoins.sample twoCoins.initialState ⟨"toss", ["cent"]⟩ (Dice.always (3 / 5))).1
      pure ((versions.determinized.action? "toss_o1").map fun v : Action ℚ =>
        (v.parameters.length, traces, probability, pickOutcome (listed.2.map Prod.fst) (3 / 5)))).toOption =
        some (some (1, [⟨1, 1 / 4, ⟨"toss", ["cent"]⟩⟩], 1 / 4, 1)) := by decide +kernel
  rw [to_option_iff] at tossed
  simp only [bind_ok_iff, pure_ok_iff, Option.map_eq_some_iff, Prod.mk.injEq] at tossed
  obtain ⟨t', domainSet, versions, current, traces, traced, _, chance, ⟨g, os⟩, listed, s', taken, v, isVariant, arity,
    rfl, rfl, picked⟩ := tossed
  obtain ⟨known, named⟩ := action_found _ _ v isVariant
  obtain ⟨t₁, versions₁, again, current₁, -, plans⟩ := plan_probability_is_sampled
    (Determinizer.ofDice .allOutcome (Dice.always (0 : ℚ))) twoCoins rfl (by decide) coins_whole
  cases domainSet.symm.trans again
  cases current.symm.trans current₁
  obtain ⟨traces₁, traced₁, -, follows⟩ := plans [⟨"toss_o1", ["cent"]⟩] fun step member => by
    cases List.mem_singleton.mp member
    exact ⟨v, known, named, arity.symm⟩
  cases traced.symm.trans traced₁
  have sampled : Samples twoCoins twoCoins.initialState (Dice.always (3 / 5)) [⟨"toss", ["cent"]⟩] [(3 / 5, 1)] [s'] := by
    have one := Samples.step twoCoins.initialState s' (Dice.always (3 / 5)) _ ⟨"toss", ["cent"]⟩ g os [] [] [] listed
      (Prod.ext taken rfl) (.done s' _)
    rwa [show pickOutcome (os.map Prod.fst) (Dice.always (3 / 5 : ℚ)).roll.1 = 1 from picked] at one
  obtain ⟨-, unfolds⟩ := follows _ _ _ _ sampled (by decide +kernel)
  exact ⟨t', _, s', domainSet, traced, chance, sampled, unfolds (.cons rfl .nil)⟩

end Replan
