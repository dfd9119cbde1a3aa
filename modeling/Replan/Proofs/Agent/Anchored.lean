import Replan.Proofs.Determinize.Pruning
import Replan.Proofs.Simulator

set_option autoImplicit false

namespace Replan

open Results

variable {R : Type} [Number R]

structure State.Regular (world : Universe) (s : State R) : Prop where
  facts : s.facts.Pairwise (· < ·)
  fluents : (s.fluents.map Prod.fst).Pairwise (· < ·)
  world : s.world = world

omit [Number R] in
theorem State.Regular.set_value {world : Universe} {s : State R} (regular : s.Regular world) (fluent : Ground) (x : R) :
    (s.setValue fluent x).Regular world where
  facts := by
    rw [facts_set_value]
    exact regular.facts
  fluents := by
    unfold setValue
    split
    · exact regular.fluents
    · split
      · exact regular.fluents
      · rw [Sorted.put_keys]
        exact Sorted.insert_ordered fluent _ regular.fluents
  world := (world_set_value s fluent x).trans regular.world

theorem Problem.regular_initial (p : Problem R) : p.initialState.Regular p.world := by
  have kept (values : List (Ground × R)) (s : State R) (regular : s.Regular p.world) :
      (values.foldl (fun s entry => s.setValue entry.1 entry.2) s).Regular p.world := by
    induction values generalizing s with
    | nil => exact regular
    | cons entry values ih => exact ih _ (regular.set_value entry.1 entry.2)
  exact kept p.init.values _ ⟨Sorted.of_list_ordered _, List.Pairwise.nil, rfl⟩

theorem Changes.regular_applied (c : Changes R) {world : Universe} {s : State R} (regular : s.Regular world) :
    (c.applyTo s).Regular world := by
  have assigned (assignments : List (AssignOp × Ground × R)) (s : State R) (regular : s.Regular world) :
      (assignments.foldl assignIn s).Regular world := by
    induction assignments generalizing s with
    | nil => exact regular
    | cons change rest ih => exact ih _ (regular.set_value change.2.1 _)
  rw [applyTo, delete_all, add_all]
  exact assigned c.assignments _
    ⟨Sorted.insert_all_ordered _ _ (Sorted.erase_all_ordered _ _ regular.facts), regular.fluents, regular.world⟩

theorem Goal.regular_collected (goal : Goal R) {world : Universe} (before : State R) {after : State R}
    (regular : after.Regular world) : (goal.collect before after).Regular world := by
  unfold collect
  split
  · exact regular
  · split
    · exact ⟨regular.facts, regular.fluents, regular.world⟩
    · exact regular

theorem Action.regular_applied (a : Action R) {world : Universe} {s s' : State R} (regular : s.Regular world)
    (goal : Option (Goal R)) (applied : a.apply s goal = .ok (some s')) : s'.Regular world := by
  unfold apply at applied
  split at applied
  · obtain ⟨next, changed, applied⟩ := (bind_ok_iff _ _ _).mp applied
    obtain ⟨c, -, rfl⟩ := (map_ok_iff _ _ _).mp changed
    have after := c.regular_applied regular
    cases goal with
    | none =>
        cases applied
        exact after
    | some goal =>
        cases applied
        exact goal.regular_collected s after
  · cases applied

theorem Problem.regular_successor (p : Problem R) {s s' : State R} (regular : s.Regular p.world) (step : Ground)
    (g : Action R) (e : Effect R) (next : p.successor s step g e = .ok s') : s'.Regular p.world :=
  Action.regular_applied _ regular _ ((successor_ok_iff p s step g e s').mp next)

theorem Problem.anchored_start (p : Problem R) {s : State R} (regular : s.Regular p.world) :
    (p.anchoredAt s).initialState.Twins s where
  facts := by
    rw [initialState, State.of_facts_facts]
    exact (Sorted.of_list_ordered s.facts).eq_of_mem_iff regular.facts fun fact => Sorted.mem_of_list s.facts fact
  world := (State.of_facts_world _ _ _).trans regular.world.symm
  values f seen := by
    have notReward : rewardAtom.ground ≠ f := fun same => seen (.inl same.symm)
    have notCost : totalCostAtom.ground ≠ f := fun same => seen (.inr same.symm)
    have plain : s.value f = (Sorted.get? f s.fluents).getD Number.zero := by
      rw [State.value, if_neg notCost.symm, if_neg notReward.symm]
    have distinct : (s.fluents.map Prod.fst).Nodup :=
      List.nodup_iff_pairwise_ne.mpr (regular.fluents.imp fun less => by rintro rfl; exact Std.Irrefl.irrefl _ less)
    rw [initialState, State.of_facts_value, plain, ← Sorted.latest_get f Number.zero s.fluents distinct, anchoredAt]
    -- Whichever totals are set anew, the other values stay.
    dsimp only
    split <;> split <;> simp only [Sorted.latest_put _ f notReward, Sorted.latest_put _ f notCost]

def Problem.Grounds (p : Problem R) (step : Ground) : Prop := ∃ g, p.ground step = .ok g

def Problem.CanTake (p : Problem R) (s : State R) (step : Ground) : Prop :=
  ∃ g os, p.outcomesIn s step = .ok (g, os)

theorem executed_ground (q : Problem R) (s : State R) (plan : Plan) (states : List (State R))
    (executed : Executes q s plan states) : ∀ step ∈ plan, q.Grounds step := by
  induction executed with
  | done => simp
  | step s s' step g goal rest states grounded _ _ ih => exact List.forall_mem_cons.mpr ⟨⟨g, grounded⟩, ih⟩

-- The domain of the problem has been set, its preprocessed form is `d`, and no wheel is used.
structure Determinizer.Serves (t : Determinizer R) (p : Problem R) (d : Domain R) : Prop where
  wheelless : t.strategy.usesWheel = false
  distinct : (p.domain.actions.map Action.name).Nodup
  preprocessed : p.domain.preprocess = .ok d
  current : t.versions = .ok ⟨p.domain, d, t.strategy.apply d⟩

def Determinizer.copy (t : Determinizer R) (d : Domain R) (p : Problem R) (s : State R) : Problem R :=
  classicalProblem (t.strategy.apply d) (p.anchoredAt s)

theorem Determinizer.domain_set_serves (t t' : Determinizer R) (p : Problem R)
    (wheelless : t.strategy.usesWheel = false) (distinct : (p.domain.actions.map Action.name).Nodup)
    (domainSet : t.setDomain p.domain = .ok t') : ∃ d, t'.Serves p d := by
  obtain ⟨d, preprocessed, rfl⟩ := (set_domain_ok_iff t t' p.domain).mp domainSet
  exact ⟨d, wheelless, distinct, preprocessed, rfl⟩

def Determinizer.Traces (t : Determinizer R) (plan base : Plan) : Prop :=
  List.Forall₂ (fun step action => ∃ o, t.trace step = .ok o ∧ o.base = action) plan base

theorem Determinizer.traced_from (t : Determinizer R) (plan : Plan)
    (each : ∀ step ∈ plan, ∃ o, t.trace step = .ok o) (before : R) :
    ∃ total base, t.tracePlanFrom before plan = .ok (total, base) ∧ t.Traces plan base := by
  induction plan generalizing before with
  | nil => exact ⟨before, [], rfl, .nil⟩
  | cons step rest ih =>
      obtain ⟨⟨o, traced⟩, others⟩ := List.forall_mem_cons.mp each
      obtain ⟨total, base, found, related⟩ := ih others (before * o.probability)
      refine ⟨total, o.base :: base, ?_, .cons ⟨o, traced, rfl⟩ related⟩
      rw [tracePlanFrom, traced, ok_bind, found]
      rfl

namespace Determinizer.Serves

variable {t : Determinizer R} {p : Problem R} {d : Domain R} (serves : t.Serves p d)

include serves

theorem determinizes (s : State R) : t.determinize (p.anchoredAt s) = .ok (t.copy d p s, t) := by
  rw [determinize, serves.current]
  simp only [Except.map, t.strategy.complete_idle serves.wheelless]
  rfl

theorem copy_starts {s : State R} (regular : s.Regular p.world) : (t.copy d p s).initialState.Twins s := by
  obtain ⟨-, shape⟩ := Domain.preprocess_actions p.domain d serves.preprocessed
  have classical := classical_start t.strategy serves.wheelless (p.anchoredAt s) d shape
  have anchored := p.anchored_start regular
  exact ⟨classical.facts.trans anchored.facts, classical.world.trans anchored.world,
    fun f seen => (classical.values f seen).trans (anchored.values f seen)⟩

theorem copy_variant (s : State R) (step : Ground) (g : Action R) (grounded : (t.copy d p s).ground step = .ok g) :
    ∃ a ∈ p.domain.actions, ∃ b, a.preprocess = .ok b ∧ ∃ i outcome, b.outcomes[i]? = some outcome ∧
      outcome.2.hasProbabilistic = false ∧ step.args.length = b.parameters.length ∧
      g = (t.strategy.commit b i outcome).bind (b.assignment step.args) ∧
      t.trace step = .ok ⟨i, outcome.1, ⟨b.name, step.args⟩⟩ := by
  obtain ⟨each, -⟩ := Domain.preprocess_actions p.domain d serves.preprocessed
  have names : ((t.strategy.apply d).actions.map Action.name).Nodup := by
    rw [Strategy.apply_actions]
    exact t.strategy.names_distinct d.actions (by rw [Domain.preprocess_names _ _ each]; exact serves.distinct)
  obtain ⟨b, member, i, outcome, found, arity, -, made, traced⟩ := variant_instance t.strategy serves.wheelless t _
    serves.current (t.strategy.apply_actions d) names (t.copy d p s) rfl step g grounded
  obtain ⟨a, known, became⟩ := forall_two_right _ _ _ each b member
  have deterministic := Action.preprocess_deterministic a b became outcome (List.mem_of_getElem? found)
  exact ⟨a, known, b, became, i, outcome, found, deterministic, arity, made, traced⟩

theorem copy_step (s : State R) (step : Ground) (g : Action R) (grounded : (t.copy d p s).ground step = .ok g) :
    ∃ o a h, t.trace step = .ok o ∧ a ∈ p.domain.actions ∧ p.ground o.base = .ok h ∧ h = a.bind (a.assignment step.args) ∧
      g.precondition = h.precondition ∧ g.effect.hasProbabilistic = false := by
  obtain ⟨a, known, b, became, i, outcome, -, deterministic, arity, rfl, traced⟩ :=
    serves.copy_variant s step g grounded
  obtain ⟨name, parameters, precondition⟩ := Action.preprocess_keeps a b became
  refine ⟨_, a, a.bind (a.assignment step.args), traced, known, ?_, rfl, ?_, ?_⟩
  · refine (problem_ground_ok_iff p _ _).mpr ⟨a, ?_, (ground_ok_iff a _ _).mpr ⟨by rw [arity, parameters], rfl⟩⟩
    rw [name]
    exact action_by_name _ serves.distinct a known
  · have kept := t.strategy.commit_precondition serves.wheelless b i outcome
    rw [Action.bind, Action.bind, kept, precondition, Action.preprocess_assignment a b became]
  · rw [Action.bind, Effect.has_probabilistic_bind]
    exact t.strategy.commit_deterministic b i outcome deterministic

theorem takes_applicable (s : State R) (step : Ground) (g : Action R) (grounded : p.ground step = .ok g)
    (applicable : g.isApplicable s = true) : p.CanTake s step := by
  obtain ⟨a, found, bound⟩ := (problem_ground_ok_iff p step g).mp grounded
  obtain ⟨each, -⟩ := Domain.preprocess_actions p.domain d serves.preprocessed
  obtain ⟨b, -, became⟩ := forall_two_left _ _ _ each a (action_found p.domain step.name a found).1
  obtain ⟨h, os, again, expanded, -⟩ := Action.ground_expand a b became step.args ((ground_ok_iff a _ g).mp bound).1
  cases bound.symm.trans again
  exact ⟨g, os, (outcomes_in_ok_iff p s step g os).mpr ⟨grounded, applicable, expanded⟩⟩

theorem first_step (unread : ∀ a ∈ p.domain.actions, a.precondition.Within (Vocabulary.unread R)) {s : State R}
    (regular : s.Regular p.world) (step : Ground) (g : Action R) (grounded : (t.copy d p s).ground step = .ok g)
    (applicable : g.isApplicable (t.copy d p s).initialState = true) (o : OutcomeTrace R) (traced : t.trace step = .ok o) :
    p.CanTake s o.base := by
  obtain ⟨o', a, h, again, known, based, rfl, same, -⟩ := serves.copy_step s step g grounded
  cases traced.symm.trans again
  refine serves.takes_applicable s o.base _ based ?_
  have twins := serves.copy_starts regular
  have asked : (a.precondition.bind (a.assignment step.args)).holds (t.copy d p s).initialState = true := by
    rw [Action.isApplicable, same] at applicable
    exact applicable
  rw [Query.holds_bind, a.precondition.eval_alike _ _ s twins.reads (unread a known), ← Query.holds_bind] at asked
  exact asked

end Determinizer.Serves

end Replan
