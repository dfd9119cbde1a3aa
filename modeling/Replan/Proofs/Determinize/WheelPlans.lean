import Replan.Proofs.Determinize.Projection
import Replan.Proofs.Determinize.Traces
import Replan.Proofs.Determinize.WheelRuns

set_option autoImplicit false

namespace Replan.Hindsight

open Names Results

section Tracing

variable {R : Type} [Number R]

theorem variant_assignment (method : WheelMethod) (transformRewards : Bool) (b : Action R) (i : Nat)
    (outcome : R × Effect R) (args : List String)
    (arity : args.length = (variantAt method transformRewards b i outcome).parameters.length) :
    b.parameters.length ≤ args.length ∧
      ((variantAt method transformRewards b i outcome).assignment args).Agree
        (b.assignment (args.take b.parameters.length)) := by
  by_cases wheel : isWheeled b = true
  · rw [variantAt, if_pos wheel] at arity ⊢
    have counted : args.length = b.parameters.length + 2 := by
      rw [arity, onWheel, List.length_append]
      rfl
    have bound : b.parameters.length ≤ args.length := by omega
    obtain ⟨now, next, steps⟩ : ∃ now next, args.drop b.parameters.length = [now, next] := by
      refine List.length_eq_two.mp ?_
      rw [List.length_drop]
      omega
    have whole : args.take b.parameters.length ++ [now, next] = args := by rw [← steps, List.take_append_drop]
    obtain ⟨-, -, agree⟩ := wheel_assignment
      (b.variant i outcome.1 (settleRewards transformRewards outcome.2)) (args.take b.parameters.length)
      (List.length_take_of_le bound) (tokenName method b.name) (choiceName b.name i) now next
    rw [whole] at agree
    exact ⟨bound, agree⟩
  · rw [variantAt, if_neg wheel] at arity ⊢
    have counted : args.length = b.parameters.length := arity
    rw [List.take_of_length_le (Nat.le_of_eq counted)]
    exact ⟨Nat.le_of_eq counted.symm, fun _ _ => rfl⟩

theorem variant_traced (method : WheelMethod) (transformRewards : Bool) (d : Domain R) (q : Problem R)
    (actions : q.domain.actions = d.actions.flatMap (variants method transformRewards)) (t : Determinizer R)
    (versions : Versions R) (current : t.versions = .ok versions)
    (same : versions.determinized.actions = q.domain.actions) (step : Ground) (g : Action R) (grounded : q.ground step = .ok g) :
    ∃ b ∈ d.actions, ∃ i outcome args σ, b.outcomes[i]? = some outcome ∧
      args.length = b.parameters.length ∧ t.trace step = .ok ⟨i, outcome.1, ⟨b.name, args⟩⟩ ∧
      σ.Agree (b.assignment args) ∧ g = (variantAt method transformRewards b i outcome).bind σ := by
  obtain ⟨v, found, instantiated⟩ := (problem_ground_ok_iff q step g).mp grounded
  obtain ⟨arity, rfl⟩ := (ground_ok_iff v step.args g).mp instantiated
  have known := (action_found q.domain step.name v found).1
  rw [actions] at known
  obtain ⟨b, member, inFamily⟩ := List.mem_flatMap.mp known
  obtain ⟨i, at_i⟩ := List.mem_iff_getElem?.mp inFamily
  rw [variants_at] at at_i
  obtain ⟨outcome, isOutcome, rfl⟩ := Option.map_eq_some_iff.mp at_i
  obtain ⟨bound, agree⟩ := variant_assignment method transformRewards b i outcome step.args arity
  refine ⟨b, member, i, outcome, step.args.take b.parameters.length, _, isOutcome, List.length_take_of_le bound,
    ?_, agree, rfl⟩
  have isVariant : versions.determinized.action? step.name =
      some (variantAt method transformRewards b i outcome) := by
    rw [Domain.action?, same]
    exact found
  have enough : ¬step.args.length < b.parameters.length := Nat.not_lt.mpr bound
  rw [Determinizer.trace, current, ok_bind, isVariant]
  simp only [(variant_at_name method transformRewards b i outcome).2, if_neg enough]
  rfl

theorem variant_does (method : WheelMethod) (transformRewards : Bool) (b : Action R) (i : Nat)
    (outcome : R × Effect R)
    (deterministic : (settleRewards transformRewards outcome.2).hasProbabilistic = false) (σ : Substitution)
    (w w' : State R) (goal : Option (Goal R))
    (applied : ((variantAt method transformRewards b i outcome).bind σ).apply w goal = .ok (some w')) :
    ∃ q e c, (q = b.precondition ∨ q = b.precondition.simplify) ∧
      (e = settleRewards transformRewards outcome.2 ∨ e = (settleRewards transformRewards outcome.2).simplify) ∧
      (q.bind σ).holds w = true ∧ c.Lead w w' ∧ Alike c (e.gathered w [σ]) := by
  by_cases wheel : isWheeled b = true
  · rw [variantAt, if_pos wheel] at applied
    obtain ⟨applicable, leads⟩ := instance_applied _ σ
      (on_wheel_deterministic _ _ (b.variant i outcome.1 _) deterministic) w w' goal applied
    have asked := ((on_wheel_applicable _ _ _ σ w).mp applicable).1
    rw [on_wheel_gathered] at leads
    refine ⟨_, _, _, Or.inr rfl, Or.inr rfl, asked, leads, ?_⟩
    exact alike_turned _ _ _ _ _ (token_reserved method b.name) (alike_agree _ _ (Changes.agree_refl _))
  · rw [variantAt, if_neg wheel] at applied
    obtain ⟨applicable, leads⟩ := instance_applied (b.variant i outcome.1 _) σ deterministic w w' goal applied
    exact ⟨_, _, _, Or.inl rfl, Or.inl rfl, applicable, leads, alike_agree _ _ (Changes.agree_refl _)⟩

end Tracing

section Outcome

variable {K : Type} [ExactNumber K] {w b : State K} (projects : Projects w b) {σ τ : Substitution} (agree : σ.Agree τ)

include projects agree

theorem precondition_projected (asked q : Query K) (kind : asked = q ∨ asked = q.simplify)
    (free : q.Within (apart K)) (sound : q.Within (simplifiable K b.world)) (holds : (asked.bind σ).holds w = true) :
    (q.bind τ).holds b = true := by
  have told : asked.Within (apart K) := by
    rcases kind with rfl | rfl
    · exact free
    · exact Query.simplify_within _ (fun _ => id) q free
  have unreserved := Query.within_below _ _ (Vocabulary.both_below_left _ _) asked told
  rw [Query.bind_agree agree asked unreserved, Query.holds_bind, eval_projected projects asked told] at holds
  rw [Query.holds_bind]
  rcases kind with rfl | rfl
  · exact holds
  · rwa [Query.simplify_truth q b [τ] (Query.within_below _ _ (Vocabulary.both_below_left _ _) q sound)
      (Query.within_below _ _ (Vocabulary.both_below_right _ _) q sound)] at holds

theorem effect_projected (transformRewards : Bool) (done e : Effect K)
    (kind : done = settleRewards transformRewards e ∨ done = (settleRewards transformRewards e).simplify)
    (free : e.Within (apart K).certain) (sound : e.Within (simplifiable K b.world).certain) :
    Changes.Agree Effect.isTotal (done.gathered w [σ]) (e.gathered b [τ]) := by
  have settledFree := settle_rewards_apart transformRewards e free
  have told : done.Within (apart K) := by
    refine Effect.within_of_certain _ done ?_
    rcases kind with rfl | rfl
    · exact settledFree
    · exact Effect.simplify_within _ (fun _ => id) _ settledFree
  have unreserved := Effect.within_below _ _ (Vocabulary.both_below_left _ _) (fun _ _ => And.left) And.left done told
  have moved : done.gathered w [σ] = done.gathered b [τ] := by
    rw [gathered_projected projects done told, ← Effect.gathered_bind, Effect.bind_agree agree done unreserved,
      Effect.gathered_bind]
  have formed := Effect.both_certain_left _ _ e sound
  have inhabited := Effect.within_of_certain _ e (Effect.both_certain_right _ _ e sound)
  have settled := settle_rewards_gathered transformRewards e b formed inhabited [τ]
  rw [moved]
  rcases kind with rfl | rfl
  · exact settled
  · exact Effect.rewritten_gathered Effect.isTotal e _ b [τ] settled
      (settle_rewards_within _ (fun _ => trivial) Query.simplify_stays_numeric
        transformRewards e formed)
      (settle_rewards_within _ (fun _ => trivial) (fun _ => id) transformRewards e inhabited)

end Outcome

section Start

variable {R : Type} [Number R]

theorem start_projected (p q : Problem R) (method : WheelMethod) (wheelSize : Nat) (d : Domain R) (dice : Dice R)
    (facts : q.init.facts = p.init.facts) (objects : q.objects = p.objects)
    (values : ∀ f, ¬Effect.isTotal f →
      Sorted.latest f Number.zero q.init.values = Sorted.latest f Number.zero p.init.values)
    (constants : q.domain.constants = p.domain.constants)
    (types : q.domain.types = p.domain.types ∨ q.domain.types = p.domain.types.insert stepType "object")
    (topmost : p.domain.types.parent? "object" = none)
    (plainTypes : ∀ pair ∈ p.domain.types.parents, reserved pair.1 = false ∧ reserved pair.2 = false)
    (plainStart : ∀ f ∈ p.init.facts, reserved f.name = false) :
    Projects (drawWheel method wheelSize d q dice).1.initialState p.initialState := by
  obtain ⟨-, sameValues, added, enlarged, kinds⟩ := draw_wheel_keeps method wheelSize d q dice
  have ordered : (drawWheel method wheelSize d q dice).1.initialState.facts.Pairwise (· < ·) := by
    rw [Problem.initialState, State.of_facts_facts]
    exact Sorted.of_list_ordered _
  refine ⟨ordered, ?_, fun f seen => ?_, fun kind below plain => ?_⟩
  · have orderedBase : p.initialState.facts.Pairwise (· < ·) := by
      rw [Problem.initialState, State.of_facts_facts]
      exact Sorted.of_list_ordered _
    refine orderedBase.eq_of_mem_iff (ordered.filter _) fun f => ?_
    rw [List.mem_filter, draw_wheel_start, facts, Problem.initialState, State.of_facts_facts, Sorted.mem_of_list,
      Bool.not_eq_true']
    constructor
    · exact fun member => ⟨Or.inl member, plainStart f member⟩
    · rintro ⟨member | ⟨_, onWheel⟩, plain⟩
      · exact member
      · rw [wheel_facts_reserved method wheelSize _ _ d dice f onWheel] at plain
        cases plain
  · rw [Problem.initialState, Problem.initialState, State.of_facts_value, State.of_facts_value, sameValues]
    exact values f seen
  · rw [Problem.initialState, Problem.initialState, State.of_facts_world, State.of_facts_world, Problem.world,
      Problem.world, draw_wheel_domain, enlarged, constants, objects, ← List.append_assoc]
    have stepReserved : reserved stepType = true := by simp [reserved, stepType, List.isPrefixOf]
    have differs (name : String) (plain : reserved name = false) : name ≠ stepType := by
      rintro rfl
      rw [plain] at stepReserved
      cases stepReserved
    exact Universe.objects_of_enlarged _ _ _ _ stepType kind (by decide) topmost
      (fun pair member => ⟨differs _ (plainTypes pair member).1, differs _ (plainTypes pair member).2⟩) types kinds
      below (differs kind plain)

end Start

section Steps

variable {K : Type} [ExactNumber K] (p : Problem K) (d : Domain K)
  (each : List.Forall₂ (fun a b => a.preprocess = .ok b) p.domain.actions d.actions)
  (distinct : (p.domain.actions.map Action.name).Nodup) (free : p.domain.Within (apart K))
  (sound : p.domain.Within (simplifiable K p.world)) (method : WheelMethod) (transformRewards : Bool) (q : Problem K)
  (actions : q.domain.actions = d.actions.flatMap (variants method transformRewards)) (t : Determinizer K)
  (versions : Versions K) (current : t.versions = .ok versions)
  (same : versions.determinized.actions = q.domain.actions)

include each distinct free sound actions current same

theorem step_projected (w w' b : State K) (projects : Projects w b) (world : b.world = p.world) (step : Ground)
    (g : Action K) (goal : Option (Goal K)) (grounded : q.ground step = .ok g)
    (applied : g.apply w goal = .ok (some w')) :
    ∃ o gb os e b', t.trace step = .ok o ∧ p.outcomesIn b o.base = .ok (gb, os) ∧
      (Effect.numbered os)[o.outcome]? = some (o.probability, e) ∧ p.successor b o.base gb e = .ok b' ∧
      Projects w' b' ∧ b'.world = p.world := by
  obtain ⟨c, member, i, outcome, args, σ, found, arity, traced, agree, rfl⟩ :=
    variant_traced method transformRewards d q actions t versions current same step g grounded
  obtain ⟨a, known, became⟩ := forall_two_right _ _ _ each c member
  have isOutcome : outcome ∈ c.outcomes := List.mem_of_getElem? found
  obtain ⟨asksFree, outcomesFree⟩ := Domain.preprocess_within _ (fun _ => id) _ _ each free c member
  obtain ⟨asksSound, outcomesSound⟩ :=
    Domain.preprocess_within _ (simplifiable_kept p.world) _ _ each sound c member
  have outcomeFree : outcome.2.Within (apart K).certain := outcomesFree outcome isOutcome
  have outcomeSound : outcome.2.Within (simplifiable K p.world).certain := outcomesSound outcome isOutcome
  have settled := settle_rewards_apart transformRewards outcome.2 outcomeFree
  obtain ⟨asked, done, changes, isAsked, isDone, holds, leads, alike⟩ := variant_does method transformRewards c i
    outcome (Effect.within_deterministic _ id _ settled) σ w w' goal applied
  rw [← world] at asksSound outcomeSound
  have holdsBase := precondition_projected projects agree asked c.precondition isAsked asksFree asksSound holds
  have agreeing := effect_projected projects agree transformRewards done outcome.2 isDone outcomeFree outcomeSound
  obtain ⟨gb, os, b', listed, numbering, taken, leadsBase⟩ :=
    base_step p distinct a c known became i outcome found args arity b holdsBase
  refine ⟨⟨i, outcome.1, ⟨c.name, args⟩⟩, gb, os, _, b', traced, listed, numbering, taken, ?_,
    leadsBase.world.trans world⟩
  refine projects_after w w' b b' projects changes _ leads leadsBase ?_ ?_
  · exact ⟨fun f plain => by rw [alike.adds f plain, agreeing.adds],
      fun f plain => by rw [alike.deletes f plain, agreeing.deletes],
      fun f seen x => (alike.values f seen x).trans (agreeing.values f seen x)⟩
  · exact unreserved_changes _ (Effect.gathered_within _ _ (Effect.both_certain_left _ _ _ outcomeFree) b _)

theorem run_projected (w b : State K) (projects : Projects w b) (world : b.world = p.world) (plan : Plan)
    (states : List (State K)) (executed : Executes q w plan states) :
    ∃ traces bases, plan.mapM t.trace = .ok traces ∧ Unfolds p b traces bases ∧
      List.Forall₂ Projects states bases := by
  induction executed generalizing b with
  | done w => exact ⟨[], [], rfl, .done b, .nil⟩
  | step w w' step g goal rest states grounded applied _ ih =>
      obtain ⟨o, gb, os, e, b', traced, listed, isOutcome, taken, projects', world'⟩ :=
        step_projected p d each distinct free sound method transformRewards q actions t versions current same
          w w' b projects world step g goal grounded applied
      obtain ⟨traces, bases, others, unfolds, related⟩ := ih b' projects' world'
      refine ⟨o :: traces, b' :: bases, ?_, .step b b' o gb os e traces bases listed isOutcome taken unfolds,
        .cons projects' related⟩
      rw [map_m_ok_iff] at others ⊢
      exact .cons traced others

end Steps

/-- A plan on a wheel stands for a run of the base problem with the outcomes that it is traced to: through the same
facts but for the wheel, through the same values but for the totals, and through goals at the same time. -/
theorem wheel_plans_project {K : Type} [ExactNumber K] (t t' t'' : Determinizer K) (p p' : Problem K)
    (method : WheelMethod) (wheelSize : Nat) (transformRewards : Bool)
    (strategy : t.strategy = .hindsight method wheelSize transformRewards)
    (domainSet : t.setDomain p.domain = .ok t') (completed : t'.determinize p = .ok (p', t''))
    (distinct : (p.domain.actions.map Action.name).Nodup)
    (formed : p.domain.Within (Vocabulary.numericOperands K))
    (inhabited : p.domain.Within (Vocabulary.populated K p.world))
    (unreserved : p.Within (Vocabulary.unreserved K)) (steadily : p.Within (steady K))
    (topmost : p.domain.types.parent? "object" = none)
    (plainTypes : ∀ pair ∈ p.domain.types.parents, reserved pair.1 = false ∧ reserved pair.2 = false)
    (plainStart : ∀ f ∈ p.init.facts, reserved f.name = false)
    (plan : Plan) (states : List (State K)) (executed : Executes p' p'.initialState plan states) :
    ∃ traces bases, plan.mapM t''.trace = .ok traces ∧ Unfolds p p.initialState traces bases ∧
      List.Forall₂
        (fun w b => b.facts = w.facts.filter (fun f => !reserved f.name) ∧
          (∀ f, ¬Effect.isTotal f → w.value f = b.value f) ∧ p'.isGoal w = p.isGoal b)
        (p'.initialState :: states) (p.initialState :: bases) := by
  obtain ⟨d, preprocessed, current, rfl⟩ :=
    hindsight_problem t t' t'' p.domain p p' method wheelSize transformRewards strategy domainSet completed
  obtain ⟨each, shape⟩ := Domain.preprocess_actions p.domain d preprocessed
  generalize problem : Determinizer.classicalProblem (determinize method transformRewards d) p = q at executed ⊢
  have free := Domain.within_both _ _ p.domain unreserved.1 steadily.1
  have sound := Domain.within_both _ _ p.domain formed inhabited
  have ofDomain : q.domain = determinize method transformRewards d := by rw [← problem]; rfl
  have kept : (determinize method transformRewards d).constants = p.domain.constants ∧
      ((determinize method transformRewards d).types = p.domain.types ∨
        (determinize method transformRewards d).types = p.domain.types.insert stepType "object") := by
    have declared := determinized_types method transformRewards d
    rw [shape] at declared ⊢
    exact declared
  have start : Projects (drawWheel method wheelSize d q t.dice).1.initialState p.initialState := by
    refine start_projected p q method wheelSize d t.dice ?_ ?_ ?_ ?_ ?_ topmost plainTypes plainStart
    · rw [← problem]; rfl
    · rw [← problem]; rfl
    · rw [← problem]
      exact fun f seen => latest_classical _ p.init.values f seen _
    · rw [ofDomain, kept.1]
    · rw [ofDomain]
      exact kept.2
  have actions : (drawWheel method wheelSize d q t.dice).1.domain.actions =
      d.actions.flatMap (variants method transformRewards) := by
    rw [draw_wheel_domain, ofDomain, determinized_actions]
  obtain ⟨traces, bases, traced, unfolds, related⟩ := run_projected p d each distinct free sound method
    transformRewards _ actions t'' _ ((determinize_keeps t' t'' p _ completed).trans current)
    (by rw [draw_wheel_domain, ofDomain]) _ p.initialState start (State.of_facts_world _ _ _) plan states executed
  have goal : (drawWheel method wheelSize d q t.dice).1.goal.query = p.goal.query := by
    rw [(draw_wheel_keeps method wheelSize d q t.dice).1, ← problem]
    rfl
  have goalFree := Query.within_both _ _ p.goal.query unreserved.2 steadily.2
  refine ⟨traces, bases, traced, unfolds, (List.Forall₂.cons start related).imp fun w b projects => ?_⟩
  refine ⟨projects.facts, projects.values, ?_⟩
  rw [Problem.isGoal, Problem.isGoal, Goal.holds, Goal.holds, goal, Query.holds, Query.holds, Query.eval, Query.eval,
    eval_projected projects p.goal.query goalFree]

theorem two_coins_unreserved : twoCoins.Within (Vocabulary.unreserved ℚ) := by
  refine ⟨coins_unreserved, ?_⟩
  simp [twoCoins, Query.Within, Vocabulary.unreserved, reserved, List.isPrefixOf]

theorem two_coins_steady : twoCoins.Within (steady ℚ) := by
  have ranged (name : String) : Ranged ⟨name, some "coin"⟩ :=
    ⟨"coin", rfl, by decide, by simp [reserved, List.isPrefixOf]⟩
  simp [Problem.Within, Domain.Within, twoCoins, coins, toss, polish, Action.Within, Query.Within, Query.WithinList,
    Effect.Within, Effect.WithinList, Effect.WithinOutcomes, steady, ranged]

theorem wheel_plans_project_toss :
    ∃ t' p' t'' traces b, (Determinizer.ofDice (.hindsight .shared 2 true) (Dice.always (0 : ℚ))).setDomain
        twoCoins.domain = .ok t' ∧ t'.determinize twoCoins = .ok (p', t'') ∧
      [⟨"toss_o0", ["cent", "hs-0", "hs-1"]⟩].mapM t''.trace = .ok traces ∧
      Unfolds twoCoins twoCoins.initialState traces [b] ∧ twoCoins.isGoal b = true := by
  have tossed : (do
      let t' ← (Determinizer.ofDice (.hindsight .shared 2 true) (Dice.always (0 : ℚ))).setDomain twoCoins.domain
      let completed ← t'.determinize twoCoins
      let g ← completed.1.ground ⟨"toss_o0", ["cent", "hs-0", "hs-1"]⟩
      let next ← g.apply completed.1.initialState none
      pure (next.map completed.1.isGoal)).toOption = some (some true) := by decide +kernel
  rw [to_option_iff] at tossed
  simp only [bind_ok_iff, pure_ok_iff] at tossed
  obtain ⟨t', domainSet, ⟨p', t''⟩, completed, g, grounded, next, applied, atGoal⟩ := tossed
  obtain ⟨s', rfl, reached⟩ := Option.map_eq_some_iff.mp atGoal
  obtain ⟨traces, bases, traced, unfolds, related⟩ := wheel_plans_project _ t' t'' twoCoins p' .shared 2 true rfl
    domainSet completed (by decide) coins_formed coins_populated two_coins_unreserved two_coins_steady (by decide)
    (by simp [twoCoins, coins, reserved, List.isPrefixOf]) (by simp [twoCoins, reserved, List.isPrefixOf]) _ _
    (.step _ s' ⟨"toss_o0", ["cent", "hs-0", "hs-1"]⟩ g none [] [] grounded applied (.done s'))
  cases related with
  | cons _ related =>
      cases related with
      | @cons _ b _ _ projects others =>
          cases others
          exact ⟨t', p', t'', traces, b, domainSet, completed, traced, unfolds, projects.2.2.symm.trans reached⟩

end Replan.Hindsight
