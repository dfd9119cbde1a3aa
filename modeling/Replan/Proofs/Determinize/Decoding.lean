import Mathlib.Algebra.Order.Field.Basic
import Replan.Proofs.Determinize.Naming

set_option autoImplicit false

namespace Replan

open Results

section Steps

variable {R : Type} [Number R]

theorem domain_set (t t' : Determinizer R) (d : Domain R) (domainSet : t.setDomain d = .ok t')
    (distinct : (d.actions.map Action.name).Nodup) :
    ∃ versions, t'.versions = .ok versions ∧ versions.given = d ∧ d.preprocess = .ok versions.preprocessed ∧
      versions.determinized.actions = versions.preprocessed.actions.flatMap t.strategy.variants ∧
      (versions.determinized.actions.map Action.name).Nodup := by
  obtain ⟨d', preprocessed, rfl⟩ := (set_domain_ok_iff t t' d).mp domainSet
  refine ⟨⟨d, d', t.strategy.apply d'⟩, rfl, rfl, preprocessed, t.strategy.apply_actions d', ?_⟩
  rw [t.strategy.apply_actions]
  refine t.strategy.names_distinct d'.actions ?_
  rwa [Domain.preprocess_names _ _ (Domain.preprocess_actions d d' preprocessed).1]

theorem trace_commit (t : Determinizer R) (versions : Versions R) (current : t.versions = .ok versions)
    (distinct : (versions.determinized.actions.map Action.name).Nodup) (strategy : Strategy R) (b : Action R) (i : Nat)
    (outcome : R × Effect R) (listed : strategy.commit b i outcome ∈ versions.determinized.actions)
    (args : List String) (arity : args.length = (strategy.commit b i outcome).parameters.length) :
    b.parameters.length ≤ args.length ∧
      t.trace ⟨(strategy.commit b i outcome).name, args⟩ =
        .ok ⟨i, outcome.1, ⟨b.name, args.take b.parameters.length⟩⟩ := by
  have commits := strategy.commit_commits b i outcome
  obtain ⟨more, together, -⟩ := commits.parameters
  have enough : b.parameters.length ≤ args.length := by
    rw [arity, together, List.length_append]
    exact Nat.le_add_right _ _
  exact ⟨enough, trace_of_variant t versions current distinct b _ listed i outcome.1 commits args enough⟩

theorem variant_step (strategy : Strategy R) (wheelless : strategy.usesWheel = false) (t : Determinizer R)
    (versions : Versions R) (current : t.versions = .ok versions)
    (actions : versions.determinized.actions = versions.preprocessed.actions.flatMap strategy.variants)
    (distinct : (versions.determinized.actions.map Action.name).Nodup) (step : Ground) (v : Action R)
    (listed : v ∈ versions.determinized.actions) (named : v.name = step.name)
    (arity : step.args.length = v.parameters.length) :
    ∃ b ∈ versions.preprocessed.actions, ∃ i outcome, b.outcomes[i]? = some outcome ∧
      v = strategy.commit b i outcome ∧ v.parameters = b.parameters ∧ v.name = variantName b.name i ∧
      t.trace step = .ok ⟨i, outcome.1, ⟨b.name, step.args⟩⟩ := by
  have inFamily := listed
  rw [actions] at inFamily
  obtain ⟨b, member, ofBase⟩ := List.mem_flatMap.mp inFamily
  obtain ⟨i, outcome, found, rfl⟩ := strategy.mem_variants b v ofBase
  have parameters := strategy.commit_parameters wheelless b i outcome
  obtain ⟨-, traced⟩ := trace_commit t versions current distinct strategy b i outcome listed step.args arity
  rw [named, List.take_of_length_le (by rw [arity, parameters])] at traced
  exact ⟨b, member, i, outcome, found, rfl, parameters, (strategy.commit_commits b i outcome).name, traced⟩

theorem variant_instance (strategy : Strategy R) (wheelless : strategy.usesWheel = false) (t : Determinizer R)
    (versions : Versions R) (current : t.versions = .ok versions)
    (actions : versions.determinized.actions = versions.preprocessed.actions.flatMap strategy.variants)
    (distinct : (versions.determinized.actions.map Action.name).Nodup) (q : Problem R)
    (same : q.domain.actions = versions.determinized.actions) (step : Ground) (g : Action R)
    (grounded : q.ground step = .ok g) :
    ∃ b ∈ versions.preprocessed.actions, ∃ i outcome, b.outcomes[i]? = some outcome ∧
      step.args.length = b.parameters.length ∧ step.name = variantName b.name i ∧
      g = (strategy.commit b i outcome).bind (b.assignment step.args) ∧
      t.trace step = .ok ⟨i, outcome.1, ⟨b.name, step.args⟩⟩ := by
  obtain ⟨v, found, bound⟩ := (problem_ground_ok_iff q step g).mp grounded
  obtain ⟨arity, rfl⟩ := (ground_ok_iff v step.args g).mp bound
  obtain ⟨listed, named⟩ := action_found q.domain step.name v found
  obtain ⟨b, member, i, outcome, isOutcome, made, parameters, numbered, traced⟩ := variant_step strategy wheelless t
    versions current actions distinct step v (same ▸ listed) named arity
  refine ⟨b, member, i, outcome, isOutcome, by rw [arity, parameters], named.symm.trans numbered, ?_, traced⟩
  rw [Action.assignment, parameters, made]
  rfl

end Steps

section Plans

variable {K : Type} [ExactNumber K]

theorem trace_plan_from (t : Determinizer K) (before : K) (plan : Plan) :
    t.tracePlanFrom before plan = (plan.mapM t.trace).map fun os =>
      (before * (os.map OutcomeTrace.probability).prod, os.map OutcomeTrace.base) := by
  induction plan generalizing before with
  | nil =>
      rw [Determinizer.tracePlanFrom, List.mapM_nil]
      show Except.ok (before, []) = Except.ok (before * 1, [])
      rw [mul_one]
  | cons step rest ih =>
      rw [Determinizer.tracePlanFrom, List.mapM_cons]
      cases t.trace step with
      | error e => rfl
      | ok o =>
          rw [ok_bind, ok_bind, ih]
          cases rest.mapM t.trace with
          | error e => rfl
          | ok os =>
              show Except.ok (before * o.probability * (os.map OutcomeTrace.probability).prod, _) = Except.ok _
              rw [mul_assoc]
              rfl

theorem trace_plan (t : Determinizer K) (plan : Plan) :
    t.tracePlan plan = (plan.mapM t.trace).map fun os =>
      ((os.map OutcomeTrace.probability).prod, os.map OutcomeTrace.base) := by
  rw [Determinizer.tracePlan, trace_plan_from, Number.one_exact]
  simp only [one_mul]

theorem trace_plan_ok_iff (t : Determinizer K) (plan : Plan) (result : K × Plan) :
    t.tracePlan plan = .ok result ↔ ∃ os, plan.mapM t.trace = .ok os ∧
      ((os.map OutcomeTrace.probability).prod, os.map OutcomeTrace.base) = result := by
  rw [trace_plan, map_ok_iff]

theorem trace_plan_succeeds_iff (t : Determinizer K) (plan : Plan) :
    (∃ result, t.tracePlan plan = .ok result) ↔ ∀ step ∈ plan, ∃ o, t.trace step = .ok o := by
  simp only [← map_m_succeeds_iff, trace_plan_ok_iff]
  constructor
  · rintro ⟨-, os, each, -⟩
    exact ⟨os, each⟩
  · rintro ⟨os, each⟩
    exact ⟨_, os, each, rfl⟩

theorem trace_plan_append (t : Determinizer K) (first second : Plan) (x y : K × Plan)
    (ofFirst : t.tracePlan first = .ok x) (ofSecond : t.tracePlan second = .ok y) :
    t.tracePlan (first ++ second) = .ok (x.1 * y.1, x.2 ++ y.2) := by
  obtain ⟨os, traces, rfl⟩ := (trace_plan_ok_iff t first x).mp ofFirst
  obtain ⟨more, others, rfl⟩ := (trace_plan_ok_iff t second y).mp ofSecond
  refine (trace_plan_ok_iff t _ _).mpr ⟨os ++ more, ?_, ?_⟩
  · rw [List.mapM_append, traces, ok_bind, others]
    rfl
  · rw [List.map_append, List.map_append, List.prod_append]

end Plans

/-- Tracing a variant finds the action and the outcome that its name was made of, without the arguments that a wheel
has added. A plan is traced step by step, and its probability is the product of those of its steps. -/
theorem traces_undo_variant_names {K : Type} [ExactNumber K] (t t' : Determinizer K) (d : Domain K)
    (domainSet : t.setDomain d = .ok t') (distinct : (d.actions.map Action.name).Nodup) :
    ∃ versions, t'.versions = .ok versions ∧ versions.given = d ∧ d.preprocess = .ok versions.preprocessed ∧
      (versions.determinized.actions.map Action.name).Nodup ∧
      (∀ v ∈ versions.determinized.actions, ∃ b ∈ versions.preprocessed.actions, ∃ i outcome,
        b.outcomes[i]? = some outcome ∧ v = t.strategy.commit b i outcome) ∧
      (∀ b ∈ versions.preprocessed.actions, ∀ i p e, b.outcomes[i]? = some (p, e) → ∀ v ∈ versions.determinized.actions,
        v = t.strategy.commit b i (p, e) → ∀ args, args.length = v.parameters.length →
          (∃ more, v.parameters = b.parameters ++ more ∧ ∀ x ∈ more, Names.reserved x.name = true) ∧
          t'.trace ⟨v.name, args⟩ = .ok ⟨i, p, ⟨b.name, args.take b.parameters.length⟩⟩) ∧
      (∀ plan, (∃ result, t'.tracePlan plan = .ok result) ↔ ∀ step ∈ plan, ∃ o, t'.trace step = .ok o) ∧
      (∀ plan os, List.Forall₂ (fun step o => t'.trace step = .ok o) plan os →
        t'.tracePlan plan = .ok ((os.map OutcomeTrace.probability).prod, os.map OutcomeTrace.base)) ∧
      (∀ first second x y, t'.tracePlan first = .ok x → t'.tracePlan second = .ok y →
        t'.tracePlan (first ++ second) = .ok (x.1 * y.1, x.2 ++ y.2)) := by
  obtain ⟨versions, current, given, preprocessed, actions, names⟩ := domain_set t t' d domainSet distinct
  refine ⟨versions, current, given, preprocessed, names, ?_, ?_, trace_plan_succeeds_iff t', ?_,
    trace_plan_append t'⟩
  · intro v listed
    rw [actions] at listed
    obtain ⟨b, member, inFamily⟩ := List.mem_flatMap.mp listed
    exact ⟨b, member, t.strategy.mem_variants b v inFamily⟩
  · rintro b - i p e - v listed rfl args arity
    exact ⟨(t.strategy.commit_commits b i (p, e)).parameters,
      (trace_commit t' versions current names t.strategy b i (p, e) listed args arity).2⟩
  · intro plan os each
    exact (trace_plan_ok_iff t' plan _).mpr ⟨os, (map_m_ok_iff _ _ _).mpr each, rfl⟩

theorem traces_undo_variant_names_toss :
    ∃ t' v b i p e, (Determinizer.ofDice (.hindsight .shared 2 true) (Dice.always (0 : ℚ))).setDomain coins = .ok t' ∧
      v.name = "toss_o1" ∧ b.outcomes[i]? = some (p, e) ∧
      v = (Strategy.hindsight .shared 2 true).commit b i (p, e) ∧
      t'.trace ⟨"toss_o1", ["cent", "hs-0", "hs-1"]⟩ =
        .ok ⟨i, p, ⟨b.name, ["cent", "hs-0", "hs-1"].take b.parameters.length⟩⟩ ∧
      t'.trace ⟨"toss_o1", ["cent", "hs-0", "hs-1"]⟩ = .ok ⟨1, 1 / 4, ⟨"toss", ["cent"]⟩⟩ := by
  have tossed : (do
      let t' ← (Determinizer.ofDice (.hindsight .shared 2 true) (Dice.always (0 : ℚ))).setDomain coins
      let versions ← t'.versions
      let traced ← t'.trace ⟨"toss_o1", ["cent", "hs-0", "hs-1"]⟩
      pure ((versions.determinized.action? "toss_o1").map fun v : Action ℚ => (v.parameters.length, traced))).toOption =
        some (some (3, ⟨1, 1 / 4, ⟨"toss", ["cent"]⟩⟩)) := by decide +kernel
  rw [to_option_iff] at tossed
  simp only [bind_ok_iff, pure_ok_iff] at tossed
  obtain ⟨t', domainSet, versions, current, o, traced, found⟩ := tossed
  obtain ⟨v, isVariant, same⟩ := Option.map_eq_some_iff.mp found
  obtain ⟨arity, rfl⟩ := Prod.mk.injEq _ _ _ _ ▸ same
  obtain ⟨known, named⟩ := action_found _ _ v isVariant
  obtain ⟨versions', current', -, -, -, made, decoded, -⟩ :=
    traces_undo_variant_names _ t' coins domainSet (by decide)
  cases current.symm.trans current'
  obtain ⟨b, member, i, ⟨p, e⟩, isOutcome, commits⟩ := made v known
  obtain ⟨-, undone⟩ := decoded b member i p e isOutcome v known commits ["cent", "hs-0", "hs-1"] (by rw [arity]; rfl)
  rw [named] at undone
  exact ⟨t', v, b, i, p, e, domainSet, named, isOutcome, commits, undone, traced⟩

end Replan
