import Replan.Proofs.Agent.Acts
import Replan.Proofs.Agent.Assured
import Replan.Proofs.Agent.Policy
import Replan.Proofs.Agent.Runs

set_option autoImplicit false

namespace Replan

open Results Act

variable {R : Type} [Number R]

def Policy.Knows (policy : Policy) (x : State R) (base : Plan) (states : List (State R)) : Prop :=
  ∀ entry ∈ (x :: states).zip base, policy.lookup? entry.1.facts = some entry.2

section Replay

variable [Number.Certainty R] {t : Determinizer R} {p : Problem R} {d : Domain R} (serves : t.Serves p d)
  (literal : t.strategy.IsLiteral) (plain : p.IsPlain) (numeric : p.ComparesNumbers)

include serves literal plain numeric

theorem SimpleAgent.replay_notes (s x : State R) (there : x.world = p.world) (declared : p.domain.Declares x)
    (plan : Plan) (states : List (State R)) (executed : Executes (t.copy d p s) x plan states) (base : Plan)
    (traced : t.Traces plan base) (y : State R)
    (same : x.Matches y) (notes : PlanNotes)
    (distinct : (notes.map Prod.fst ++ (x :: states).map State.facts).Nodup) :
    ∃ noted, replay t (t.copy d p s) p.domain.predicateNames notes y plan = .ok noted ∧ (noted.map Prod.fst).Nodup ∧
      (∀ entry ∈ notes, entry ∈ noted) ∧
      ∀ entry ∈ (x :: states).zip base, (entry.1.facts, some entry.2) ∈ noted := by
  induction executed generalizing base y notes with
  | done x =>
      cases traced
      exact ⟨notes, rfl, (List.nodup_append.mp distinct).1, fun _ => id, by simp⟩
  | step x x' step g goal rest states grounded applied _ ih =>
      cases traced with
      | cons first others =>
          obtain ⟨o, first, rfl⟩ := first
          obtain ⟨there', kept, moves⟩ :=
            serves.copy_moves literal plain numeric s x x' there step g goal grounded applied o first
          obtain ⟨-, y', taken, same'⟩ := moves y same
          have key : (y.project p.domain.predicateNames).key = x.facts :=
            (p.domain.declared_key y (same.declared declared)).trans same.facts.symm
          -- No note has been made for these facts, so this one is added behind the others and stands.
          have new : x.facts ∉ notes.map Prod.fst := fun old =>
            (List.nodup_append.mp distinct).2.2 _ old _ List.mem_cons_self rfl
          have added := notes.add_new x.facts o.base new
          obtain ⟨noted, replayed, unique, old, later⟩ := ih there' (kept declared) _ others y' same'
            (notes ++ [(x.facts, some o.base)]) (by simpa using distinct)
          refine ⟨noted, ?_, unique, fun entry member => old entry (List.mem_append_left _ member), ?_⟩
          · rw [replay, first, ok_bind, grounded, ok_bind, taken, key, added]
            exact replayed
          · rw [List.zip_cons_cons]
            exact List.forall_mem_cons.mpr ⟨old _ (List.mem_append_right _ List.mem_cons_self), later⟩

end Replay

namespace Agent

variable {α : Type} (agent : Agent R α) (clock : Nat → Nat) {p : Problem R}

-- A run ends at the goal with the given memory. It has taken the first `k` actions of a plan since the history was the
-- given one, through the facts of as many states.
def Arrives (history : List (Ground × State R)) (base : Plan) (states : List (State R)) (k : Nat) (learnt : α)
    (ended : Except (Error R) (Option (RunReport R)) × Simulator R × α) : Prop :=
  ∃ report after moves, ended = (.ok (some report), after, learnt) ∧ report.status = .success ∧
    after.history = history ++ moves ∧ moves.map Prod.fst = base.take k ∧
    moves.map (State.facts ∘ Prod.snd) = (states.take k).map State.facts

theorem arrives_solved (steps : Nat) (s : State R) (sim : Simulator R) (memory : α) (fuel : Nat) (enough : 0 < fuel)
    (problem : agent.problem memory = p) (solved : p.isGoal s = true) (base : Plan) (states : List (State R)) :
    Arrives sim.history base states 0 memory (agent.playFrom clock steps s sim memory fuel) := by
  cases fuel with
  | zero => cases enough
  | succ fuel =>
      rw [playFrom, problem, if_pos solved]
      exact ⟨_, sim, [], rfl, rfl, (List.append_nil _).symm, rfl, rfl⟩

theorem arrives_turn (steps : Nat) (s : State R) (sim : Simulator R) (memory learnt last : α) (fuel k : Nat)
    (enough : k + 1 < fuel) (problem : agent.problem memory = p) (unsolved : p.isGoal s = false)
    (loaded : sim.loaded = some (p, s)) (forever : sim.timeout = none) (action : Ground)
    (chosen : agent.next s none memory = (.ok (some action), learnt)) (x : State R) (ensures : p.Ensures s action x)
    (base : Plan) (states : List (State R))
    (onward : ∀ fuel s' after, k < fuel → x.Matches s' → after.loaded = some (p, s') → after.timeout = none →
      Arrives after.history base states k last (agent.playFrom clock (steps + 1) s' after learnt fuel)) :
    Arrives sim.history (action :: base) (x :: states) (k + 1) last
      (agent.playFrom clock steps s sim memory fuel) := by
  cases fuel with
  | zero => cases enough
  | succ fuel =>
      obtain ⟨g, os, listed, leads⟩ := ensures
      have inTime (time : Nat) : sim.timedOut time = false := by rw [Simulator.timedOut, forever]
      have remaining (time : Nat) : sim.remaining time = none := by rw [Simulator.remaining, forever]; rfl
      -- Without a deadline a step is refused or taken, and this one is taken whatever is drawn.
      obtain ⟨late, -⟩ | ⟨-, e, refused, -⟩ | ⟨-, h, os', s', again, -, next, stepped⟩ :=
        sim.step_cases (clock (3 * steps + 3)) action p s loaded
      · cases (inTime _).symm.trans late
      · cases listed.symm.trans refused
      · cases listed.symm.trans again
        obtain ⟨s'', also, same⟩ := leads sim.dice.roll.1
        cases next.symm.trans also
        rw [playFrom, problem, unsolved, if_neg Bool.false_ne_true, inTime, if_neg Bool.false_ne_true, remaining, chosen]
        simp only [stepped, Bool.false_eq_true, if_false]
        let later : Simulator R := { sim with
          loaded := some (p, s'), dice := sim.dice.roll.2, history := sim.history ++ [(action, s')] }
        obtain ⟨report, after, moves, reported, success, played, actions, facts⟩ :=
          onward fuel s' later (Nat.lt_of_succ_lt_succ enough) same rfl forever
        refine ⟨report, after, (action, s') :: moves, reported, success, ?_, ?_, ?_⟩
        · rw [played, List.append_assoc, List.singleton_append]
        · rw [List.map_cons, actions, List.take_succ_cons]
        · rw [List.map_cons, facts, List.take_succ_cons, List.map_cons, same.facts]
          rfl

end Agent

namespace SimpleAgent

variable {σ : Type} (planner : Planner R σ) {p : Problem R}

theorem next_known (s : State R) (remaining : Option Nat) (memory : SimpleAgent R σ) (problem : memory.problem = p)
    (vocabulary : memory.vocabulary = p.domain.predicateNames) (declared : p.domain.Declares s) (action : Ground)
    (known : memory.policy.lookup? s.facts = some action) (takes : p.CanTake s action) :
    next planner s remaining memory = (.ok (some action), memory) := by
  obtain ⟨g, os, listed⟩ := takes
  obtain ⟨grounded, applicable, -⟩ := (outcomes_in_ok_iff p s action g os).mp listed
  have key := p.domain.declared_key s declared
  have ends : Ends (next planner s remaining) memory (fun choice left => choice = some action ∧ left = memory)
      fun _ _ => False := by
    rw [next]
    simp only [ends_bind, ends_get, vocabulary, key, known, ends_ok, problem, grounded]
    rw [if_pos applicable]
    exact ⟨rfl, rfl⟩
  obtain ⟨_, _, acted, rfl, rfl⟩ := (ends_ok_iff _ _ _).mp ends
  exact acted

theorem follows_known (plain : p.IsPlain) (clock : Nat → Nat) (x : State R) (base : Plan) (states : List (State R))
    (assures : Assures p x base states) (declared : ∀ z ∈ x :: states, p.domain.Declares z)
    (solved : p.isGoal (states.getLastD x) = true) (memory : SimpleAgent R σ) (problem : memory.problem = p)
    (vocabulary : memory.vocabulary = p.domain.predicateNames) (knows : memory.policy.Knows x base states) (s : State R)
    (same : x.Matches s) (steps : Nat) (sim : Simulator R) (loaded : sim.loaded = some (p, s))
    (forever : sim.timeout = none) (fuel : Nat) (enough : (x :: states).findIdx p.isGoal < fuel) :
    Agent.Arrives sim.history base states ((x :: states).findIdx p.isGoal) memory
      ((agent planner).playFrom clock steps s sim memory fuel) := by
  induction assures generalizing s steps sim fuel with
  | done x =>
      have solved : p.isGoal x = true := solved
      rw [List.findIdx_cons, solved] at enough ⊢
      exact Agent.arrives_solved _ clock steps s sim memory fuel enough problem ((plain.goal_alike same).symm.trans solved) _ _
  | step x x' action rest states ensures _ ih =>
      have alike := plain.goal_alike same
      rw [List.findIdx_cons] at enough ⊢
      cases goal : p.isGoal x with
      | true =>
          rw [goal] at enough alike
          exact Agent.arrives_solved _ clock steps s sim memory fuel enough problem alike.symm _ _
      | false =>
          rw [goal] at enough alike
          obtain ⟨here, later⟩ := List.forall_mem_cons.mp declared
          obtain ⟨known, others⟩ := List.forall_mem_cons.mp knows
          obtain ⟨g, os, listed, leads⟩ := ensures s same
          have chosen := next_known planner s none memory problem vocabulary (same.declared here) action
            (same.facts ▸ known) ⟨g, os, listed⟩
          exact Agent.arrives_turn _ clock steps s sim memory memory memory fuel _ enough problem alike.symm loaded forever
            action chosen x' ⟨g, os, listed, leads⟩ rest states fun fuel s' after enough same' loaded forever =>
              ih later (by rwa [List.getLastD_cons] at solved) others s' same' _ after loaded forever fuel enough

section Learning

variable [Number.Certainty R] {t : Determinizer R} {d : Domain R} (serves : t.Serves p d) (literal : t.strategy.IsLiteral)
  (plain : p.IsPlain) (numeric : p.ComparesNumbers)

include serves literal plain numeric

theorem next_learns (s : State R) (regular : s.Regular p.world) (declared : p.domain.Declares s)
    (memory : SimpleAgent R σ) (problem : memory.problem = p) (determinizer : memory.determinizer = t)
    (vocabulary : memory.vocabulary = p.domain.predicateNames) (unknown : memory.policy.lookup? s.facts = none)
    (step : Ground) (rest : Plan) (states : List (State R))
    (planned : (planner.solve memory.planner (t.copy d p s) none).1.plan = some (step :: rest))
    (executed : Executes (t.copy d p s) (t.copy d p s).initialState (step :: rest) states)
    (distinct : (((t.copy d p s).initialState :: states).map State.facts).Nodup) (action : Ground) (base : Plan)
    (traced : t.Traces (step :: rest) (action :: base)) :
    ∃ learnt, next planner s none memory = (.ok (some action), learnt) ∧ learnt.problem = p ∧
      learnt.vocabulary = p.domain.predicateNames ∧ learnt.invocations = memory.invocations + 1 ∧
      learnt.planner = (planner.solve memory.planner (t.copy d p s) none).2 ∧
      learnt.policy.Knows (t.copy d p s).initialState (action :: base) states := by
  have same := serves.copy_matches regular
  have key := p.domain.declared_key s declared
  obtain ⟨noted, replayed, unique, -, finds⟩ := replay_notes serves literal plain numeric s (t.copy d p s).initialState
    (same.world.symm.trans regular.world) (same.declared declared) _ states executed _ traced _ ⟨rfl, rfl⟩ [] distinct
  have begun : firstAction t (step :: rest) = .ok (some action) := by
    cases traced with
    | cons first _ =>
        obtain ⟨o, first, rfl⟩ := first
        rw [firstAction, first]
        rfl
  have ends : Ends (next planner s none) memory (fun choice left => choice = some action ∧ left = { memory with
      determinizer := t, planner := (planner.solve memory.planner (t.copy d p s) none).2,
      invocations := memory.invocations + 1, policy := noted.enter memory.policy }) fun _ _ => False := by
    rw [next]
    simp only [ends_bind, ends_get, vocabulary, key, unknown, replan, ends_ok, problem, determinizer, serves.determinizes s]
    simp only [ends_set, planned, ends_bind, ends_ok, ends_modify, ends_pure, replayed, begun, and_self]
  obtain ⟨_, _, acted, rfl, rfl⟩ := (ends_ok_iff _ _ _).mp ends
  exact ⟨_, acted, problem, vocabulary, rfl, rfl, fun entry member =>
    noted.enter_finds unique _ _ (finds entry member) memory.policy⟩

theorem run_arrives (unsolved : p.isGoal p.initialState = false) (memory : SimpleAgent R σ) (problem : memory.problem = p)
    (determinizer : memory.determinizer = t) (vocabulary : memory.vocabulary = p.domain.predicateNames)
    (unknown : memory.policy = []) (plan : Plan) (states : List (State R))
    (planned : (planner.solve memory.planner (t.copy d p p.initialState) none).1.plan = some plan)
    (executed : Executes (t.copy d p p.initialState) (t.copy d p p.initialState).initialState plan states)
    (solved : p.isGoal (states.getLastD (t.copy d p p.initialState).initialState) = true)
    (distinct : (((t.copy d p p.initialState).initialState :: states).map State.facts).Nodup) (base : Plan)
    (traced : t.Traces plan base) (clock : Nat → Nat)
    (sim : Simulator R) (forever : sim.timeout = none) (fuel : Nat)
    (enough : ((t.copy d p p.initialState).initialState :: states).findIdx p.isGoal < fuel) :
    ∃ learnt, learnt.invocations = memory.invocations + 1 ∧
      learnt.planner = (planner.solve memory.planner (t.copy d p p.initialState) none).2 ∧
      Agent.Arrives [] base states (((t.copy d p p.initialState).initialState :: states).findIdx p.isGoal) learnt
        ((agent planner).run clock sim memory fuel) := by
  have regular := p.regular_initial
  have same := serves.copy_matches regular
  have declared : p.domain.Declares p.initialState := fun fact member => by
    rw [Problem.initialState, State.of_facts_facts] at member
    exact plain.facts fact ((Sorted.mem_of_list _ _).mp member)
  obtain ⟨assures, declares⟩ := serves.copy_assures literal plain numeric p.initialState _
    (same.world.symm.trans regular.world) (same.declared declared) plan states executed base traced
  have begins := (plain.goal_alike same).symm.trans unsolved
  -- The first state is no goal, so there is a first action, and the rest of the plan is known when it has been taken.
  cases assures with
  | done x => cases begins.symm.trans solved
  | step x x' action base states ensures later =>
      rw [List.findIdx_cons, begins, cond_false] at enough ⊢
      cases plan with
      | nil => cases traced
      | cons step rest =>
          obtain ⟨learnt, chosen, kept, known, calls, left, knows⟩ := next_learns planner serves literal plain numeric
            p.initialState regular declared memory problem determinizer vocabulary (by rw [unknown]; rfl) step rest _ planned
            executed distinct action base traced
          obtain ⟨-, declares⟩ := List.forall_mem_cons.mp declares
          obtain ⟨-, knows⟩ := List.forall_mem_cons.mp knows
          rw [List.getLastD_cons] at solved
          refine ⟨learnt, calls, left, ?_⟩
          rw [Agent.run, show (agent planner).problem memory = p from problem]
          exact Agent.arrives_turn _ clock 0 p.initialState ((sim.reset p).start (clock 0)) memory learnt learnt fuel _ enough
            problem unsolved rfl forever action chosen x' (ensures _ ⟨same.facts.symm, same.world.symm⟩) base states
            fun fuel s' after enough same' loaded forever => follows_known planner plain clock x' base states later declares
              solved learnt kept known knows s' same' _ after loaded forever fuel enough

end Learning

/-- Where nothing is left to chance one call of the planner is enough: the agent follows the first plan up to its
first goal. -/
theorem one_call_is_enough [Number.Certainty R] (p : Problem R) (plain : p.IsPlain)
    (numeric : p.ComparesNumbers) (unsolved : p.isGoal p.initialState = false) (t : Determinizer R)
    (literal : t.strategy.IsLiteral) (planner : Planner R σ) (start : σ) :
    ∃ memory q t', ofProblem p t start = .ok memory ∧
      memory.determinizer.determinize (p.anchoredAt p.initialState) = .ok (q, t') ∧
      ∀ plan states, (planner.solve start q none).1.plan = some plan → Executes q q.initialState plan states →
        q.isGoal (states.getLastD q.initialState) = true →
        ((q.initialState :: states).map State.facts).Nodup →
        ∃ probability base, memory.determinizer.tracePlan plan = .ok (probability, base) ∧
          let k := (q.initialState :: states).findIdx q.isGoal
          ∀ clock sim fuel, sim.timeout = none → k < fuel →
            ∃ report after learnt, (agent planner).run clock sim memory fuel = (.ok (some report), after, learnt) ∧
              report.status = .success ∧ learnt.invocations = 1 ∧ learnt.planner = (planner.solve start q none).2 ∧
              after.history.map Prod.fst = base.take k ∧
              after.history.map (State.facts ∘ Prod.snd) = (states.take k).map State.facts := by
  obtain ⟨d, preprocessed⟩ := p.domain.preprocess_certain plain.certain
  let t' : Determinizer R := { t with current := some ⟨p.domain, d, t.strategy.apply d⟩ }
  have domainSet : t.setDomain p.domain = .ok t' := (set_domain_ok_iff t t' p.domain).mpr ⟨d, preprocessed, rfl⟩
  have serves : t'.Serves p d := ⟨t.strategy.literal_wheelless literal, plain.distinct, preprocessed, rfl⟩
  have made : ofProblem p t start = .ok ⟨p, t', start, p.domain.predicateNames, [], 0⟩ := by
    rw [ofProblem, domainSet]
    rfl
  refine ⟨_, _, _, made, serves.determinizes p.initialState, fun plan states planned executed solved distinct => ?_⟩
  have traces (step : Ground) (member : step ∈ plan) : ∃ o, t'.trace step = .ok o := by
    obtain ⟨g, grounded⟩ := executed_ground _ _ plan states executed step member
    obtain ⟨o, -, -, traced, -⟩ := serves.copy_step p.initialState step g grounded
    exact ⟨o, traced⟩
  obtain ⟨probability, base, traced, related⟩ := t'.traced_from plan traces Number.one
  refine ⟨probability, base, traced, fun clock sim fuel forever enough => ?_⟩
  obtain ⟨learnt, calls, left, report, after, moves, reported, success, played, actions, facts⟩ := run_arrives planner serves
    literal plain numeric unsolved ⟨p, t', start, p.domain.predicateNames, [], 0⟩ rfl rfl rfl rfl plan states planned executed
    solved distinct base related clock sim forever fuel enough
  obtain rfl : after.history = moves := played
  exact ⟨report, after, learnt, reported, success, calls, left, actions, facts⟩

end SimpleAgent

def turn : Action ℚ where
  name := "turn"
  parameters := [coin]
  precondition := .fact ⟨"ready", [coin]⟩
  effect := .conj [.when (.neg (.fact ⟨"heads", [coin]⟩)) (.add ⟨"heads", [coin]⟩), .delete ⟨"ready", [coin]⟩]
  origin := none

def dullCoins : Problem ℚ :=
  { twoCoins with domain := { coins with actions := [polish, turn] }, init := ⟨[], []⟩ }

theorem dull_coins_plain : dullCoins.IsPlain where
  distinct := by decide
  certain := by decide +kernel
  preconditions := by simp [dullCoins, polish, turn, Query.Within, Vocabulary.fluentless]
  conditions := by simp [dullCoins, polish, turn, Effect.nodes, Effect.nodesList, Query.Within, Vocabulary.fluentless]
  populated := by simp [dullCoins, polish, turn, Effect.nodes, Effect.nodesList, Query.Within, Vocabulary.populated]
  additions := by
    have declared : ["ready", "heads"] ⊆ dullCoins.domain.predicateNames := by decide +kernel
    have ready := declared List.mem_cons_self
    have heads := declared (List.mem_cons_of_mem _ List.mem_cons_self)
    refine List.forall_mem_cons.mpr ⟨?_, List.forall_mem_singleton.mpr ?_⟩
    · simp [polish, Effect.nodes, Effect.nodesList, ready]
    · simp [turn, Effect.nodes, Effect.nodesList, heads]
  goal := by simp [dullCoins, twoCoins, Query.Within, Vocabulary.fluentless]
  facts := by simp [dullCoins]

theorem dull_coins_compare_numbers : dullCoins.ComparesNumbers := by
  simp [Problem.ComparesNumbers, dullCoins, polish, turn, Effect.nodes, Effect.nodesList, Query.Within,
    Vocabulary.numericOperands]

theorem one_call_is_enough_turn :
    let plan : Plan := [⟨"polish_o0", ["cent"]⟩, ⟨"turn_o0", ["cent"]⟩]
    ∃ memory report after learnt,
      SimpleAgent.ofProblem dullCoins (Determinizer.ofDice .allOutcome (Dice.always (0 : ℚ))) [⟨some plan, false, 0⟩] =
        .ok memory ∧
      (SimpleAgent.agent (Planner.scripted fun _ => none)).run (fun _ => 0) (Simulator.ofDice none (Dice.always 0)) memory 3 =
        (.ok (some report), after, learnt) ∧
      report.status = .success ∧ learnt.invocations = 1 ∧
      after.history.map Prod.fst = [⟨"polish", ["cent"]⟩, ⟨"turn", ["cent"]⟩] := by
  intro plan
  have executes : (do
      let memory ← SimpleAgent.ofProblem dullCoins (Determinizer.ofDice .allOutcome (Dice.always (0 : ℚ)))
        [(⟨some plan, false, 0⟩ : PlanReport)]
      let copied ← memory.determinizer.determinize (dullCoins.anchoredAt dullCoins.initialState)
      let start := copied.1.initialState
      let g₁ ← copied.1.ground ⟨"polish_o0", ["cent"]⟩
      let s₁ ← g₁.apply start none
      let g₂ ← copied.1.ground ⟨"turn_o0", ["cent"]⟩
      let s₂ ← g₂.apply (s₁.getD start) none
      let traced ← memory.determinizer.tracePlan plan
      let states := [start, s₁.getD start, s₂.getD start]
      pure (s₁.isSome && s₂.isSome, states.map State.facts, states.map copied.1.isGoal, traced.2)).toOption =
        some (true, [[], [Ground.mk "ready" ["cent"]], [Ground.mk "heads" ["cent"]]], [false, false, true],
          [Ground.mk "polish" ["cent"], Ground.mk "turn" ["cent"]]) := by
    decide +kernel
  rw [to_option_iff] at executes
  simp only [bind_ok_iff, pure_ok_iff, Prod.mk.injEq, Bool.and_eq_true, Option.isSome_iff_exists] at executes
  obtain ⟨memory, made, ⟨q, t'⟩, copied, g₁, grounded₁, _, applied₁, g₂, grounded₂, _, applied₂, ⟨total, base⟩, traced,
    ⟨⟨s₁, rfl⟩, ⟨s₂, rfl⟩⟩, facts, goals, rfl⟩ := executes
  have executed : Executes q q.initialState plan [s₁, s₂] :=
    .step _ s₁ _ g₁ none _ _ grounded₁ applied₁ (.step s₁ s₂ _ g₂ none [] [] grounded₂ applied₂ (.done s₂))
  obtain ⟨memory', q', t'', again, also, onward⟩ := SimpleAgent.one_call_is_enough dullCoins dull_coins_plain
    dull_coins_compare_numbers (by decide +kernel) (Determinizer.ofDice .allOutcome (Dice.always (0 : ℚ))) (.inl rfl)
    (Planner.scripted fun _ => none) [⟨some plan, false, 0⟩]
  cases made.symm.trans again
  cases copied.symm.trans also
  simp only [Option.getD_some] at facts goals
  obtain ⟨begins, goals⟩ := List.cons.inj goals
  obtain ⟨between, goals⟩ := List.cons.inj goals
  obtain ⟨solved, -⟩ := List.cons.inj goals
  obtain ⟨_, _, tracedAgain, runs⟩ := onward plan [s₁, s₂] rfl executed solved (by rw [facts]; decide)
  cases traced.symm.trans tracedAgain
  have first : ([q.initialState, s₁, s₂] : List (State ℚ)).findIdx q.isGoal = 2 := by
    rw [List.findIdx_cons, begins, List.findIdx_cons, between, List.findIdx_cons, solved]
    rfl
  simp only [first] at runs
  obtain ⟨report, after, learnt, played, success, calls, -, actions, -⟩ := runs (fun _ => 0)
    (Simulator.ofDice none (Dice.always 0)) 3 rfl (by decide)
  exact ⟨memory, report, after, learnt, made, played, success, calls, actions⟩

-- `(when (= (and 2) 2) (done))` never does anything, since a conjunction is a truth, which counts as one. Simplified, it
-- compares the numbers and always does something.
def finish : Action ℚ where
  name := "finish"
  parameters := []
  precondition := .always
  effect := .when (.comparison .equal (.conj [.constant 2]) (.constant 2)) (.add ⟨"done", []⟩)
  origin := none

def unfinished : Problem ℚ where
  name := "unfinished"
  domain := ⟨"tasks", [.conditionalEffects, .equality], ⟨[]⟩, [], [⟨"done", []⟩], [], [finish]⟩
  objects := []
  init := ⟨[], []⟩
  goal := ⟨.fact ⟨"done", []⟩, none, none⟩

theorem unfinished_plain : unfinished.IsPlain where
  distinct := by decide
  certain := by decide +kernel
  preconditions := by simp [unfinished, finish, Query.Within]
  conditions := by simp [unfinished, finish, Effect.nodes, Query.Within, Query.WithinList, Vocabulary.fluentless]
  populated := by simp [unfinished, finish, Effect.nodes, Query.Within, Query.WithinList, Vocabulary.populated]
  additions := by
    have declared : "done" ∈ unfinished.domain.predicateNames := by decide +kernel
    refine List.forall_mem_singleton.mpr ?_
    simp [finish, Effect.nodes, declared]
  goal := by simp [unfinished, Query.Within, Vocabulary.fluentless]
  facts := by simp [unfinished]

theorem finish_does_nothing : finish.effect.apply unfinished.initialState = .ok unfinished.initialState := by
  have differ : (Query.evalUnder unfinished.initialState []
      (.comparison .equal (.conj [.constant (2 : ℚ)]) (.constant 2))).asBool = false := by decide +kernel
  rw [Effect.apply, finish, Effect.changesUnder, differ]
  rfl

theorem unfinished_stays (step : Ground) (dice rolled : Dice ℚ) (s : State ℚ)
    (sampled : unfinished.sample unfinished.initialState step dice = (.ok s, rolled)) : s = unfinished.initialState := by
  obtain ⟨g, os, listed, succeeded⟩ := (sample_ok_iff unfinished _ s step dice).mp (congrArg Prod.fst sampled)
  obtain ⟨grounded, -, expanded⟩ := (outcomes_in_ok_iff unfinished _ step g os).mp listed
  obtain ⟨a, known, σ, rfl⟩ := instance_bound unfinished g (.inr ⟨step, grounded⟩)
  obtain rfl := List.mem_singleton.mp known
  have only : (finish.bind σ).effect.branches = .ok [(Number.one, finish.effect)] := rfl
  rw [Effect.expand, only, Except.map, Effect.settle_certain] at expanded
  cases expanded
  have applied := (successor_ok_iff unfinished _ step _ _ s).mp succeeded
  have drawn : (Problem.drawnEffect [(Number.one, finish.effect)] dice.roll.1).apply unfinished.initialState =
      .ok unfinished.initialState := by
    rw [Problem.drawnEffect]
    split
    · next found =>
        rw [List.mem_singleton.mp (List.mem_of_getElem? found)]
        exact finish_does_nothing
    · rfl
  rw [Action.apply, drawn] at applied
  split at applied
  · cases applied
    rfl
  · cases applied

theorem unfinished_unsolved (dice : Dice ℚ) (steps : List Ground) (rolls : List (ℚ × Nat)) (states : List (State ℚ))
    (sampled : Samples unfinished unfinished.initialState dice steps rolls states) :
    unfinished.isGoal (states.getLastD unfinished.initialState) = false := by
  generalize start : unfinished.initialState = s at sampled
  induction sampled with
  | done s dice =>
      subst start
      decide +kernel
  | step s s' dice rolled step g os rest rolls states listed sampled _ ih =>
      subst start
      obtain rfl := unfinished_stays step dice rolled s' sampled
      rw [List.getLastD_cons]
      exact ih rfl

/-- The copy that the plan is made in gets done, the problem does not. -/
theorem one_call_is_not_enough_for_truths :
    let plan : Plan := [⟨"finish_o0", []⟩]
    let planner : Planner ℚ (List PlanReport) := Planner.scripted fun _ => none
    unfinished.IsPlain ∧ unfinished.isGoal unfinished.initialState = false ∧
    ∃ memory q t s,
      SimpleAgent.ofProblem unfinished (Determinizer.ofDice .allOutcome (Dice.always (0 : ℚ))) [⟨some plan, false, 0⟩] =
        .ok memory ∧
      memory.determinizer.determinize (unfinished.anchoredAt unfinished.initialState) = .ok (q, t) ∧
      (planner.solve memory.planner q none).1.plan = some plan ∧
      Executes q q.initialState plan [s] ∧ q.isGoal s = true ∧ (([q.initialState, s]).map State.facts).Nodup ∧
      ∀ clock sim fuel report after learnt,
        (SimpleAgent.agent planner).run clock sim memory fuel = (.ok (some report), after, learnt) →
        report.status ≠ .success := by
  intro plan planner
  have executes : (do
      let memory ← SimpleAgent.ofProblem unfinished (Determinizer.ofDice .allOutcome (Dice.always (0 : ℚ)))
        [(⟨some plan, false, 0⟩ : PlanReport)]
      let copied ← memory.determinizer.determinize (unfinished.anchoredAt unfinished.initialState)
      let start := copied.1.initialState
      let g ← copied.1.ground ⟨"finish_o0", []⟩
      let s ← g.apply start none
      pure (s.isSome, (planner.solve memory.planner copied.1 none).1.plan, [start, s.getD start].map State.facts,
        copied.1.isGoal (s.getD start))).toOption =
          some (true, some plan, [[], [Ground.mk "done" []]], true) := by
    decide +kernel
  rw [to_option_iff] at executes
  simp only [bind_ok_iff, pure_ok_iff, Prod.mk.injEq, Option.isSome_iff_exists] at executes
  obtain ⟨memory, made, ⟨q, t⟩, copied, g, grounded, _, applied, ⟨s, rfl⟩, planned, facts, solved⟩ := executes
  refine ⟨unfinished_plain, by decide +kernel, memory, q, t, s, made, copied, planned,
    .step _ s _ g none [] [] grounded applied (.done s), solved, ?_, ?_⟩
  · rw [Option.getD_some] at facts
    rw [facts]
    decide
  · intro clock sim fuel report after learnt ended success
    have problem : memory.problem = unfinished := by
      simp only [SimpleAgent.ofProblem, bind_ok_iff, pure_ok_iff] at made
      obtain ⟨_, -, _, -, rfl⟩ := made
      rfl
    rw [Agent.run, show (SimpleAgent.agent planner).problem memory = unfinished from problem] at ended
    obtain ⟨moves, reports⟩ := Agent.ended_reports _ clock (SimpleAgent.keeps_problem planner) unfinished fuel 0 _ _ memory
      problem rfl report after learnt ended
    obtain ⟨rolls, sampled⟩ := reports.sampled
    have arrived := reports.judged.mp success
    rw [reports.last, unfinished_unsolved _ _ rolls _ sampled] at arrived
    cases arrived

end Replan
