import Replan.Proofs.Agent.Acts
import Replan.Proofs.Determinize.Sampling
import Replan.Proofs.Simulator

set_option autoImplicit false

namespace Replan

open Results Act

variable {R : Type}

def Agent.KeepsProblem {α : Type} (agent : Agent R α) : Prop :=
  ∀ s remaining memory, agent.problem (agent.next s remaining memory).2 = agent.problem memory

section Problem

variable [Number R] {σ : Type} (planner : Planner R σ) (p : Problem R)

namespace SimpleAgent

theorem replan_leaves (s : State R) (remaining : Option Nat) (memory : SimpleAgent R σ) (known : memory.problem = p) :
    Leaves (replan planner s remaining) memory fun left => left.problem = p := by
  rw [Leaves, replan]
  simp only [ends_bind, ends_get, ends_lift, ends_set]
  refine ⟨?_, fun _ _ => known⟩
  rintro ⟨determinized, determinizer⟩ -
  split
  · exact known
  · simp only [ends_bind, ends_lift, ends_modify, ends_pure]
    exact ⟨fun _ _ => ⟨fun _ _ => known, fun _ _ => known⟩, fun _ _ => known⟩

theorem next_leaves (s : State R) (remaining : Option Nat) (memory : SimpleAgent R σ) (known : memory.problem = p) :
    Leaves (next planner s remaining) memory fun left => left.problem = p := by
  rw [Leaves, next]
  simp only [ends_bind, ends_get]
  split
  · exact replan_leaves planner p s remaining memory known
  · simp only [ends_bind, ends_lift]
    refine ⟨fun a _ => ?_, fun _ _ => known⟩
    split
    · exact known
    · rw [ends_bind, ends_set]
      exact replan_leaves planner p s remaining _ known

theorem keeps_problem : (agent planner).KeepsProblem := fun s remaining memory =>
  leaves_holds _ memory _ (next_leaves planner memory.problem s remaining memory rfl)

end SimpleAgent

namespace HindsightAgent

theorem rollout_leaves (anchored : Problem R) (budget : Budget) (memory : HindsightAgent R σ)
    (known : memory.problem = p) : Leaves (rollout planner anchored budget) memory fun left => left.problem = p := by
  rw [Leaves, rollout]
  simp only [ends_bind, ends_get, ends_lift]
  refine ⟨?_, fun _ _ => known⟩
  rintro ⟨determinized, determinizer⟩ -
  simp only [ends_set]
  refine ⟨fun slice _ => ?_, fun _ _ => known⟩
  split
  · exact known
  · simp only [ends_bind, ends_lift, ends_pure]
    exact ⟨fun _ _ => known, fun _ _ => known⟩

theorem rollouts_leave (anchored : Problem R) (calls : Nat) (budget : Budget) (memory : HindsightAgent R σ)
    (known : memory.problem = p) :
    Leaves (rollouts planner anchored budget calls) memory fun left => left.problem = p := by
  induction calls generalizing budget memory with
  | zero => exact known
  | succ calls ih =>
      refine leaves_bind _ _ memory _ (rollout_leaves planner p anchored budget memory known) fun first left kept => ?_
      exact leaves_bind _ _ left _ (ih first.2 left kept) fun _ _ kept => kept

theorem score_leaves (s : State R) (candidate : Candidate) (budget : Budget) (memory : HindsightAgent R σ)
    (known : memory.problem = p) : Leaves (score planner s candidate budget) memory fun left => left.problem = p := by
  rw [Leaves, score]
  simp only [ends_bind, ends_get]
  split
  · exact known
  · rw [sampledScore]
    simp only [ends_bind, ends_get, ends_lift, ends_set]
    refine ⟨fun successor _ => ?_, fun _ _ => known⟩
    split
    · exact known
    · exact leaves_bind _ _ _ _ (rollouts_leave planner p _ _ _ _ known) fun _ _ kept => kept

theorem choose_from_leaves (s : State R) (candidates : List Candidate) (best : Option (Candidate × R))
    (budget : Budget) (memory : HindsightAgent R σ) (known : memory.problem = p) :
    Leaves (chooseFrom planner s best budget candidates) memory fun left => left.problem = p := by
  induction candidates generalizing best budget memory with
  | nil => exact known
  | cons candidate rest ih =>
      exact leaves_bind _ _ memory _ (score_leaves planner p s candidate budget memory known)
        fun scored left kept => ih _ _ left kept

theorem decide_leaves (s : State R) (remaining : Option Nat) (memory : HindsightAgent R σ)
    (known : memory.problem = p) : Leaves (decide planner s remaining) memory fun left => left.problem = p := by
  rw [Leaves, decide]
  simp only [ends_bind, ends_get]
  refine ends_imp _ memory (rollouts_leave planner p _ _ _ memory known) (fun planned left kept => ?_) fun _ _ => id
  refine ends_imp _ left (choose_from_leaves planner p s _ none _ left kept) (fun best left kept => ?_) fun _ _ => id
  split <;> exact kept

theorem next_unprimed_leaves (s : State R) (remaining : Option Nat) (memory : HindsightAgent R σ)
    (known : memory.problem = p) :
    Leaves (nextUnprimed planner s remaining) memory fun left => left.problem = p := by
  rw [Leaves, nextUnprimed]
  simp only [ends_bind, ends_get]
  split
  · exact decide_leaves planner p s remaining memory known
  · simp only [ends_bind, ends_lift]
    refine ⟨fun a _ => ?_, fun _ _ => known⟩
    split
    · exact known
    · rw [ends_bind, ends_set]
      exact decide_leaves planner p s remaining _ known

theorem next_leaves (s : State R) (remaining : Option Nat) (memory : HindsightAgent R σ)
    (known : memory.problem = p) : Leaves (next planner s remaining) memory fun left => left.problem = p := by
  rw [Leaves, next]
  simp only [ends_bind, ends_get]
  split
  · exact next_unprimed_leaves planner p s remaining memory known
  · simp only [ends_bind, ends_lift, ends_set]
    refine ⟨fun a _ => ?_, fun _ _ => known⟩
    split
    · exact known
    · rw [ends_bind, ends_set]
      exact next_unprimed_leaves planner p s remaining _ known

theorem keeps_problem : (agent planner).KeepsProblem := fun s remaining memory =>
  leaves_holds _ memory _ (next_leaves planner memory.problem s remaining memory rfl)

end HindsightAgent

end Problem

namespace Agent

variable [Number R] {α : Type} (agent : Agent R α) (clock : Nat → Nat)

section Turns

variable (steps : Nat) (s : State R) (sim : Simulator R) (memory : α) (fuel : Nat)

theorem turn_cases (report : RunReport R) (after : Simulator R) (learnt : α)
    (ended : agent.playFrom clock steps s sim memory (fuel + 1) = (.ok (some report), after, learnt)) :
    ((agent.problem memory).isGoal s = true ∧ report.status = .success ∨
        (agent.problem memory).isGoal s = false ∧ report.status ≠ .success) ∧
        report.steps = steps ∧ report.state = s ∧ (after = sim ∨ ∃ action result,
          sim.step (clock (3 * steps + 3)) action = (.ok result, after) ∧ result.timedOut = true) ∨
      (agent.problem memory).isGoal s = false ∧ ∃ action between result sim',
        agent.next s (sim.remaining (clock (3 * steps + 2))) memory = (.ok (some action), between) ∧
        sim.step (clock (3 * steps + 3)) action = (.ok result, sim') ∧ result.timedOut = false ∧
        agent.playFrom clock (steps + 1) result.state sim' between fuel = (.ok (some report), after, learnt) := by
  rw [playFrom] at ended
  cases goal : (agent.problem memory).isGoal s with
  | true =>
      rw [goal, if_pos rfl] at ended
      cases ended
      exact .inl ⟨.inl ⟨rfl, rfl⟩, rfl, rfl, .inl rfl⟩
  | false =>
      rw [goal, if_neg Bool.false_ne_true] at ended
      split at ended
      · cases ended
        exact .inl ⟨.inr ⟨rfl, by simp⟩, rfl, rfl, .inl rfl⟩
      · split at ended
        · cases ended
        · cases ended
          exact .inl ⟨.inr ⟨rfl, by simp⟩, rfl, rfl, .inl rfl⟩
        · next action between chosen =>
            split at ended
            · cases ended
            · next result sim' stepped =>
                split at ended
                · next late =>
                    cases ended
                    exact .inl ⟨.inr ⟨rfl, by simp⟩, rfl, rfl, .inr ⟨action, result, stepped, late⟩⟩
                · next inTime =>
                    exact .inr ⟨rfl, action, between, result, sim', chosen, stepped, by simpa using inTime, ended⟩

end Turns

-- What a report says, and what the simulator has done since the loop was at `s`: the moves with the states they led
-- to, each sampled with the next draw.
structure Reports (p : Problem R) (s : State R) (sim : Simulator R) (steps : Nat) (report : RunReport R)
    (after : Simulator R) (moves : List (Ground × State R)) : Prop where
  played : after = { sim with
    loaded := some (p, report.state)
    dice := ⟨sim.dice.draws, sim.dice.used + moves.length⟩
    history := sim.history ++ moves }
  sampled : ∃ rolls, Samples p s sim.dice (moves.map Prod.fst) rolls (moves.map Prod.snd)
  counted : report.steps = steps + moves.length
  last : report.state = (moves.map Prod.snd).getLastD s
  before : ∀ earlier ∈ (s :: moves.map Prod.snd).dropLast, p.isGoal earlier = false
  judged : report.status = .success ↔ p.isGoal report.state = true

theorem reports_stop (p : Problem R) (s : State R) (sim : Simulator R) (loaded : sim.loaded = some (p, s)) (steps : Nat)
    (report : RunReport R) (counted : report.steps = steps) (last : report.state = s)
    (judged : report.status = .success ↔ p.isGoal s = true) : Reports p s sim steps report sim [] where
  played := by
    rw [last, ← loaded, List.append_nil]
    rfl
  sampled := ⟨[], .done s sim.dice⟩
  counted := counted
  last := last
  before := by simp
  judged := last ▸ judged

theorem reports_step (p : Problem R) (s s' : State R) (sim : Simulator R) (action : Ground) (g : Action R)
    (os : List (R × Effect R)) (listed : p.outcomesIn s action = .ok (g, os))
    (sampled : p.sample s action sim.dice = (.ok s', sim.dice.roll.2)) (steps : Nat) (report : RunReport R)
    (after : Simulator R) (moves : List (Ground × State R)) (unsolved : p.isGoal s = false)
    (reports : Reports p s'
      { sim with loaded := some (p, s'), dice := sim.dice.roll.2, history := sim.history ++ [(action, s')] }
      (steps + 1) report after moves) :
    Reports p s sim steps report after ((action, s') :: moves) where
  played := by
    rw [reports.played, List.length_cons, List.append_assoc, Nat.add_comm moves.length 1, ← Nat.add_assoc]
    rfl
  sampled := reports.sampled.imp' _ fun rolls rest =>
    .step s s' sim.dice sim.dice.roll.2 action g os _ rolls _ listed sampled rest
  counted := by rw [reports.counted, List.length_cons, Nat.add_assoc, Nat.add_comm 1]
  last := by rw [reports.last, List.map_cons, List.getLastD_cons]
  before := List.forall_mem_cons.mpr ⟨unsolved, reports.before⟩
  judged := reports.judged

theorem ended_reports (keeps : agent.KeepsProblem) (p : Problem R) (fuel steps : Nat) (s : State R) (sim : Simulator R)
    (memory : α) (known : agent.problem memory = p) (loaded : sim.loaded = some (p, s)) (report : RunReport R)
    (after : Simulator R) (learnt : α)
    (ended : agent.playFrom clock steps s sim memory fuel = (.ok (some report), after, learnt)) :
    ∃ moves, Reports p s sim steps report after moves := by
  induction fuel generalizing steps s sim memory with
  | zero => cases ended
  | succ fuel ih =>
      obtain ⟨judged, counted, last, left⟩ | ⟨unsolved, action, between, result, sim', chosen, stepped, inTime, ended⟩ :=
        turn_cases agent clock steps s sim memory fuel report after learnt ended
      · rw [known] at judged
        -- Only a step in time moves the simulator.
        have unchanged : after = sim := by
          rcases left with same | ⟨action, result, stepped, late⟩
          · exact same
          · obtain ⟨-, again⟩ | ⟨-, e, -, again⟩ | ⟨-, g, os, s', -, -, -, again⟩ :=
              sim.step_cases (clock (3 * steps + 3)) action p s loaded
            · cases stepped.symm.trans again
              rfl
            · cases stepped.symm.trans again
            · cases stepped.symm.trans again
              cases late
        refine ⟨[], unchanged ▸ reports_stop p s sim loaded steps report counted last ?_⟩
        rcases judged with ⟨solved, success⟩ | ⟨unsolved, failed⟩
        · exact iff_of_true success solved
        · exact iff_of_false failed (by rw [unsolved]; exact Bool.false_ne_true)
      · rw [known] at unsolved
        obtain ⟨-, again⟩ | ⟨-, e, -, again⟩ | ⟨-, g, os, s', listed, sampled, -, again⟩ :=
          sim.step_cases (clock (3 * steps + 3)) action p s loaded
        · cases stepped.symm.trans again
          cases inTime
        · cases stepped.symm.trans again
        · cases stepped.symm.trans again
          have kept : agent.problem between = p := by
            have same := keeps s (sim.remaining (clock (3 * steps + 2))) memory
            rwa [chosen, known] at same
          obtain ⟨moves, reports⟩ := ih (steps + 1) s' _ between kept rfl ended
          exact ⟨_, reports_step p s s' sim action g os listed sampled steps report after moves unsolved reports⟩

/-- What the report of a run says is what the simulator has played, with one draw for every step. -/
theorem run_reports_are_true :
    (∀ {σ : Type} (planner : Planner R σ), (SimpleAgent.agent planner).KeepsProblem) ∧
    (∀ {σ : Type} (planner : Planner R σ), (HindsightAgent.agent planner).KeepsProblem) ∧
    ∀ {α : Type} (agent : Agent R α), agent.KeepsProblem → ∀ clock sim memory fuel report after learnt,
      agent.run clock sim memory fuel = (.ok (some report), after, learnt) →
      let p := agent.problem memory
      let states := after.history.map Prod.snd
      report.steps = after.history.length ∧
      after.loaded = some (p, report.state) ∧
      report.state = states.getLastD p.initialState ∧
      (report.status = .success ↔ p.isGoal report.state = true) ∧
      (∀ earlier ∈ (p.initialState :: states).dropLast, p.isGoal earlier = false) ∧
      (∃ rolls, Samples p p.initialState sim.dice (after.history.map Prod.fst) rolls states) ∧
      after.dice = ⟨sim.dice.draws, sim.dice.used + report.steps⟩ := by
  refine ⟨SimpleAgent.keeps_problem, HindsightAgent.keeps_problem, ?_⟩
  intro α agent keeps clock sim memory fuel report after learnt ended
  obtain ⟨moves, reports⟩ := ended_reports agent clock keeps (agent.problem memory) fuel 0 _ _ memory rfl rfl report after
    learnt ended
  have history : after.history = moves := by
    rw [reports.played]
    rfl
  have steps : report.steps = moves.length := reports.counted.trans (Nat.zero_add _)
  rw [history, steps]
  refine ⟨rfl, ?_, reports.last, reports.judged, reports.before, reports.sampled, ?_⟩
  · rw [reports.played]
  · rw [reports.played]
    rfl

def tossAgain : List PlanReport :=
  [⟨some [⟨"toss_o0", ["cent"]⟩], false, 0⟩, ⟨some [⟨"polish_o0", ["cent"]⟩, ⟨"toss_o0", ["cent"]⟩], false, 0⟩]

theorem run_reports_are_true_toss :
    ∃ memory report after learnt,
      SimpleAgent.ofProblem twoCoins (Determinizer.ofDice .allOutcome (Dice.always (0 : ℚ))) tossAgain = .ok memory ∧
      (SimpleAgent.agent (Planner.scripted fun _ => none)).run (fun _ => 0)
        (Simulator.ofDice none (Dice.ofDraws fun k => if k = 0 then 3 / 5 else 0)) memory 4 =
          (.ok (some report), after, learnt) ∧
      report.steps = 3 ∧ after.history.length = 3 ∧ report.status = .success ∧ twoCoins.isGoal report.state = true := by
  let sim : Simulator ℚ := Simulator.ofDice none (Dice.ofDraws fun k => if k = 0 then 3 / 5 else 0)
  let player : Agent ℚ (SimpleAgent ℚ (List PlanReport)) := SimpleAgent.agent (Planner.scripted fun _ => none)
  have played : (do
      let memory ← SimpleAgent.ofProblem twoCoins (Determinizer.ofDice .allOutcome (Dice.always (0 : ℚ))) tossAgain
      let ended ← (player.run (fun _ => 0) sim memory 4).1
      pure (ended.map fun report : RunReport ℚ => (report.status, report.steps))).toOption =
        some (some (.success, 3)) := by decide +kernel
  rw [to_option_iff] at played
  simp only [bind_ok_iff, pure_ok_iff, Option.map_eq_some_iff, Prod.mk.injEq] at played
  obtain ⟨memory, made, _, ended, report, rfl, success, counted⟩ := played
  have problem : memory.problem = twoCoins := by
    simp only [SimpleAgent.ofProblem, bind_ok_iff, pure_ok_iff] at made
    obtain ⟨_, -, _, -, rfl⟩ := made
    rfl
  have run : player.run (fun _ => 0) sim memory 4 = (.ok (some report), _, _) := Prod.ext ended rfl
  obtain ⟨steps, -, -, judged, -⟩ := run_reports_are_true.2.2 player (SimpleAgent.keeps_problem _) _ sim memory 4 report _ _
    run
  refine ⟨memory, report, _, _, made, run, counted, steps.symm.trans counted, success, ?_⟩
  have solved := judged.mp success
  rwa [show player.problem memory = twoCoins from problem] at solved

end Agent

end Replan
