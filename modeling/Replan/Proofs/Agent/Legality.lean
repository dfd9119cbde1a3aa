import Replan.Proofs.Agent.Acts
import Replan.Proofs.Agent.Anchored

set_option autoImplicit false

namespace Replan

open Results Act

section Executable

variable {R : Type} [Number R]

-- Every plan that is reported can be executed in the problem that the planner was given.
def Planner.Sound {σ : Type} (planner : Planner R σ) : Prop :=
  ∀ memory q limit plan, (planner.solve memory q limit).1.plan = some plan →
    ∃ states, Executes q q.initialState plan states

theorem executed_first (q : Problem R) (s : State R) (step : Ground) (rest : Plan) (states : List (State R))
    (executed : Executes q s (step :: rest) states) : ∃ g, q.ground step = .ok g ∧ g.isApplicable s = true := by
  cases executed with
  | step s s' step g goal rest states grounded applied _ =>
      exact ⟨g, grounded, (applied_changes g s s' goal applied).1⟩

end Executable

namespace Agent

variable {R : Type} [Number R] {α : Type}

-- The turns that a run comes to: the steps before, the state, the simulator and the memory of the agent.
inductive ComesTo (agent : Agent R α) (clock : Nat → Nat) (sim : Simulator R) (memory : α) :
    Nat → State R → Simulator R → α → Prop
  | start : ComesTo agent clock sim memory 0 (agent.problem memory).initialState
      ((sim.reset (agent.problem memory)).start (clock 0)) memory
  | turn (steps : Nat) (s : State R) (now after : Simulator R) (learnt left : α) (action : Ground)
      (result : StepResult R) : ComesTo agent clock sim memory steps s now learnt →
      (agent.problem learnt).isGoal s = false → now.timedOut (clock (3 * steps + 1)) = false →
      agent.next s (now.remaining (clock (3 * steps + 2))) learnt = (.ok (some action), left) →
      now.step (clock (3 * steps + 3)) action = (.ok result, after) → result.timedOut = false →
      ComesTo agent clock sim memory (steps + 1) result.state after left

-- The agent is never at fault: at every turn it chooses without an error, the action that it submits is applicable
-- in the state of the simulator, the simulator takes it without an error, and no run ends with one.
structure PlaysLegally (agent : Agent R α) (clock : Nat → Nat) (sim : Simulator R) (memory : α) : Prop where
  chooses : ∀ steps s now learnt, agent.ComesTo clock sim memory steps s now learnt →
    (agent.problem learnt).isGoal s = false → now.timedOut (clock (3 * steps + 1)) = false →
    ∃ choice left, agent.next s (now.remaining (clock (3 * steps + 2))) learnt = (.ok choice, left) ∧
      ∀ action, choice = some action →
        (∃ p g, now.loaded = some (p, s) ∧ p.ground action = .ok g ∧ g.isApplicable s = true) ∧
        ∃ result after, now.step (clock (3 * steps + 3)) action = (.ok result, after)
  finishes : ∀ fuel, ∃ report after learnt, agent.run clock sim memory fuel = (.ok report, after, learnt)

inductive HasPlayed (agent : Agent R α) (kind : Simulator R → Prop) (memory : α) : α → Prop
  | new : HasPlayed agent kind memory memory
  | again (clock : Nat → Nat) (sim : Simulator R) (learnt : α) (fuel : Nat) : kind sim →
      HasPlayed agent kind memory learnt → HasPlayed agent kind memory (agent.run clock sim learnt fuel).2.2

-- Acting from a memory that is as the agent keeps it, in a state of a run, with or without a deadline, ends with an
-- action that can be taken, or with none.
def ChoosesIn (agent : Agent R α) (p : Problem R) (keeps : α → Prop) (timeout : Option Nat) : Prop :=
  ∀ s remaining memory, s.Regular p.world → (timeout = none → remaining = none) → keeps memory →
    Ends (agent.next s remaining) memory
      (fun choice left => keeps left ∧ ∀ action, choice = some action → p.CanTake s action) fun _ _ => False

section Invariant

variable (agent : Agent R α) (clock : Nat → Nat) (sim : Simulator R) (memory : α) (p : Problem R) (keeps : α → Prop)

structure Prepared (s : State R) (now : Simulator R) (learnt : α) : Prop where
  loaded : now.loaded = some (p, s)
  regular : s.Regular p.world
  timeout : now.timeout = sim.timeout
  memory : keeps learnt

theorem prepared_steps (s : State R) (now : Simulator R) (learnt left : α)
    (prepared : Prepared sim p keeps s now learnt) (known : keeps left) (time : Nat) (action : Ground)
    (takes : p.CanTake s action) :
    ∃ result after, now.step time action = (.ok result, after) ∧
      (result.timedOut = false → Prepared sim p keeps result.state after left) := by
  obtain ⟨g, os, listed⟩ := takes
  obtain ⟨-, stepped⟩ | ⟨-, e, refused, -⟩ | ⟨-, h, os', s', -, -, next, stepped⟩ :=
    now.step_cases time action p s prepared.loaded
  · exact ⟨_, _, stepped, fun inTime => by cases inTime⟩
  · cases listed.symm.trans refused
  · exact ⟨_, _, stepped, fun _ => ⟨rfl, p.regular_successor prepared.regular action h _ next, prepared.timeout, known⟩⟩

variable (choosing : agent.ChoosesIn p keeps sim.timeout)

include choosing

theorem prepared_chooses (s : State R) (now : Simulator R) (learnt : α) (prepared : Prepared sim p keeps s now learnt)
    (time : Nat) :
    ∃ choice left, agent.next s (now.remaining time) learnt = (.ok choice, left) ∧ keeps left ∧
      ∀ action, choice = some action → p.CanTake s action :=
  (ends_ok_iff _ _ _).mp (choosing s _ learnt prepared.regular
    (fun forever => by rw [Simulator.remaining, prepared.timeout, forever]; rfl) prepared.memory)

theorem prepared_finishes (fuel steps : Nat) (s : State R) (now : Simulator R) (learnt : α)
    (prepared : Prepared sim p keeps s now learnt) :
    ∃ report after last, agent.playFrom clock steps s now learnt fuel = (.ok report, after, last) ∧ keeps last := by
  induction fuel generalizing steps s now learnt with
  | zero => exact ⟨_, _, _, rfl, prepared.memory⟩
  | succ fuel ih =>
      obtain ⟨choice, left, chosen, known, takes⟩ := prepared_chooses agent sim p keeps choosing s now learnt prepared
        (clock (3 * steps + 2))
      rw [playFrom]
      split
      · exact ⟨_, _, _, rfl, prepared.memory⟩
      · split
        · exact ⟨_, _, _, rfl, prepared.memory⟩
        · rw [chosen]
          cases choice with
          | none => exact ⟨_, _, _, rfl, known⟩
          | some action =>
              obtain ⟨result, after, stepped, next⟩ := prepared_steps sim p keeps s now learnt left prepared known
                (clock (3 * steps + 3)) action (takes action rfl)
              simp only [stepped]
              cases late : result.timedOut with
              | true => exact ⟨_, _, _, rfl, known⟩
              | false => exact ih (steps + 1) result.state after left (next late)

variable (problem : ∀ learnt, keeps learnt → agent.problem learnt = p)

include problem

theorem comes_prepared (start : keeps memory) (steps : Nat) (s : State R) (now : Simulator R) (learnt : α)
    (comes : agent.ComesTo clock sim memory steps s now learnt) : Prepared sim p keeps s now learnt := by
  induction comes with
  | start =>
      rw [problem memory start]
      exact ⟨rfl, p.regular_initial, rfl, start⟩
  | turn steps s now after learnt left action result _ _ _ chosen stepped inTime ih =>
      obtain ⟨_, _, again, known, takes⟩ := prepared_chooses agent sim p keeps choosing s now learnt ih _
      cases chosen.symm.trans again
      obtain ⟨_, _, also, prepared⟩ := prepared_steps sim p keeps s now learnt _ ih known _ action (takes action rfl)
      cases stepped.symm.trans also
      exact prepared inTime

theorem run_finishes (start : keeps memory) (fuel : Nat) :
    ∃ report after last, agent.run clock sim memory fuel = (.ok report, after, last) ∧ keeps last :=
  prepared_finishes agent clock sim p keeps choosing fuel 0 _ _ memory
    (comes_prepared agent clock sim memory p keeps choosing problem start 0 _ _ memory .start)

theorem legal_of_kept (start : keeps memory) : agent.PlaysLegally clock sim memory where
  chooses steps s now learnt comes _ _ := by
    have prepared := comes_prepared agent clock sim memory p keeps choosing problem start steps s now learnt comes
    obtain ⟨choice, left, chosen, known, takes⟩ := prepared_chooses agent sim p keeps choosing s now learnt prepared
      (clock (3 * steps + 2))
    refine ⟨choice, left, chosen, fun action submitted => ?_⟩
    obtain ⟨result, after, stepped, -⟩ := prepared_steps sim p keeps s now learnt left prepared known
      (clock (3 * steps + 3)) action (takes action submitted)
    obtain ⟨g, os, listed⟩ := takes action submitted
    obtain ⟨grounded, applicable, -⟩ := (outcomes_in_ok_iff p s action g os).mp listed
    exact ⟨⟨p, g, prepared.loaded, grounded, applicable⟩, result, after, stepped⟩
  finishes fuel := by
    obtain ⟨report, after, last, ended, -⟩ := run_finishes agent clock sim memory p keeps choosing problem start fuel
    exact ⟨report, after, last, ended⟩

omit choosing in
theorem played_legally (kind : Simulator R → Prop)
    (choosing : ∀ sim, kind sim → agent.ChoosesIn p keeps sim.timeout) (start : keeps memory) (learnt : α)
    (played : agent.HasPlayed kind memory learnt) (suits : kind sim) : agent.PlaysLegally clock sim learnt := by
  have kept : keeps learnt := by
    induction played with
    | new => exact start
    | again clock sim learnt fuel suits _ ih =>
        obtain ⟨_, _, _, ended, kept⟩ := run_finishes agent clock sim learnt p keeps (choosing sim suits) problem ih fuel
        rw [ended]
        exact kept
  exact legal_of_kept agent clock sim learnt p keeps (choosing sim suits) problem kept

end Invariant

end Agent

section Remembered

variable {R : Type} (p : Problem R)

def Policy.Grounded (policy : Policy) : Prop := ∀ entry ∈ policy, p.Grounds entry.2

def PlanNotes.Grounded (notes : PlanNotes) : Prop :=
  ∀ entry ∈ notes, ∀ action, entry.2 = some action → p.Grounds action

theorem Policy.grounded_lookup (policy : Policy) (grounded : policy.Grounded p) (key : List Ground) (action : Ground)
    (found : policy.lookup? key = some action) : p.Grounds action := by
  obtain ⟨entry, known, rfl⟩ := Option.map_eq_some_iff.mp found
  exact grounded entry (List.mem_of_find?_eq_some known)

theorem Policy.grounded_erase (policy : Policy) (grounded : policy.Grounded p) (key : List Ground) :
    (policy.erase key).Grounded p := fun entry member => grounded entry (List.mem_filter.mp member).1

theorem Policy.grounded_insert (policy : Policy) (grounded : policy.Grounded p) (key : List Ground) (action : Ground)
    (known : p.Grounds action) : (policy.insert key action).Grounded p :=
  List.forall_mem_cons.mpr ⟨known, policy.grounded_erase p grounded key⟩

theorem PlanNotes.grounded_add (notes : PlanNotes) (grounded : notes.Grounded p) (key : List Ground) (action : Ground)
    (known : p.Grounds action) : (notes.add key action).Grounded p := by
  induction notes with
  | nil =>
      refine List.forall_mem_singleton.mpr ?_
      rintro _ ⟨⟩
      exact known
  | cons entry rest ih =>
      obtain ⟨here, others⟩ := List.forall_mem_cons.mp grounded
      rw [add]
      split
      · refine List.forall_mem_cons.mpr ⟨fun noted same => ?_, others⟩
        dsimp only at same
        split at same
        · exact here noted same
        · cases same
      · exact List.forall_mem_cons.mpr ⟨here, ih others⟩

theorem PlanNotes.grounded_enter (notes : PlanNotes) (grounded : notes.Grounded p) (policy : Policy)
    (known : policy.Grounded p) : (notes.enter policy).Grounded p := by
  induction notes generalizing policy with
  | nil => exact known
  | cons entry rest ih =>
      obtain ⟨here, others⟩ := List.forall_mem_cons.mp grounded
      refine ih others _ ?_
      dsimp only
      split
      · next action noted => exact policy.grounded_insert p known entry.1 action (here action noted)
      · exact policy.grounded_erase p known entry.1

end Remembered

section Traced

variable {R : Type} [Number R] {t : Determinizer R} {p : Problem R} {d : Domain R} (serves : t.Serves p d)

include serves

theorem Determinizer.Serves.traces_grounded (s : State R) (step : Ground) (named : (t.copy d p s).Grounds step) :
    ∃ o, t.trace step = .ok o ∧ p.Grounds o.base := by
  obtain ⟨g, grounded⟩ := named
  obtain ⟨o, a, h, traced, -, based, -⟩ := serves.copy_step s step g grounded
  exact ⟨o, traced, h, based⟩

theorem SimpleAgent.replay_succeeds (s : State R) (vocabulary : List String) (plan : Plan)
    (named : ∀ step ∈ plan, (t.copy d p s).Grounds step) (notes : PlanNotes) (grounded : notes.Grounded p)
    (here : State R) :
    ∃ noted, replay t (t.copy d p s) vocabulary notes here plan = .ok noted ∧ noted.Grounded p := by
  induction plan generalizing notes here with
  | nil => exact ⟨notes, rfl, grounded⟩
  | cons step rest ih =>
      obtain ⟨⟨g, isInstance⟩, others⟩ := List.forall_mem_cons.mp named
      obtain ⟨o, a, h, traced, -, based, -, -, deterministic⟩ := serves.copy_step s step g isInstance
      have added := notes.grounded_add p grounded (here.project vocabulary).key o.base ⟨h, based⟩
      rw [replay, traced, ok_bind, isInstance, ok_bind]
      cases applicable : g.isApplicable here with
      | false =>
          rw [Action.apply, applicable, if_neg Bool.false_ne_true]
          exact ⟨_, rfl, added⟩
      | true =>
          obtain ⟨next, applied⟩ := deterministic_applies g deterministic here none applicable
          rw [applied]
          exact ih others _ added next

end Traced

namespace SimpleAgent

variable {R : Type} [Number R] {σ : Type} {planner : Planner R σ} (sound : planner.Sound) {t : Determinizer R}
  {p : Problem R} {d : Domain R} (serves : t.Serves p d)
  (unread : ∀ a ∈ p.domain.actions, a.precondition.Within (Vocabulary.unread R))

structure Keeps (t : Determinizer R) (p : Problem R) (memory : SimpleAgent R σ) : Prop where
  problem : memory.problem = p
  determinizer : memory.determinizer = t
  policy : memory.policy.Grounded p

include sound serves unread

theorem replan_legal (s : State R) (regular : s.Regular p.world) (remaining : Option Nat) (memory : SimpleAgent R σ)
    (keeps : memory.Keeps t p) :
    Ends (replan planner s remaining) memory
      (fun choice left => left.Keeps t p ∧ ∀ action, choice = some action → p.CanTake s action) fun _ _ => False := by
  rw [replan]
  simp only [ends_bind, ends_get, ends_ok, keeps.problem, keeps.determinizer, serves.determinizes s]
  simp only [ends_set]
  split
  · exact ⟨⟨rfl, rfl, keeps.policy⟩, by rintro _ ⟨⟩⟩
  · next plan planned =>
      obtain ⟨states, executed⟩ := sound _ _ _ plan planned
      have named := executed_ground _ _ plan states executed
      obtain ⟨notes, replayed, noted⟩ := replay_succeeds serves s memory.vocabulary plan named [] (by simp [PlanNotes.Grounded])
        (t.copy d p s).initialState
      have first : ∃ choice, firstAction t plan = .ok choice ∧ ∀ action, choice = some action → p.CanTake s action := by
        cases plan with
        | nil => exact ⟨none, rfl, by rintro _ ⟨⟩⟩
        | cons step rest =>
            obtain ⟨g, grounded, applicable⟩ := executed_first _ _ step rest states executed
            obtain ⟨o, -, -, traced, -⟩ := serves.copy_step s step g grounded
            refine ⟨some o.base, by rw [firstAction, traced]; rfl, ?_⟩
            rintro _ ⟨⟩
            exact serves.first_step unread regular step g grounded applicable o traced
      obtain ⟨choice, begun, takes⟩ := first
      simp only [ends_bind, ends_ok, ends_modify, ends_pure, replayed, begun]
      exact ⟨⟨rfl, rfl, notes.grounded_enter p noted memory.policy keeps.policy⟩, takes⟩

theorem chooses_in (timeout : Option Nat) : (agent planner).ChoosesIn p (Keeps t p) timeout := by
  intro s remaining memory regular _ keeps
  change Ends (next planner s remaining) memory _ _
  rw [next]
  simp only [ends_bind, ends_get]
  split
  · exact replan_legal sound serves unread s regular remaining memory keeps
  · next action found =>
      obtain ⟨a, grounded⟩ := memory.policy.grounded_lookup p keeps.policy _ action found
      simp only [ends_bind, ends_ok, keeps.problem, grounded]
      split
      · next applicable =>
          refine ⟨keeps, ?_⟩
          rintro _ ⟨⟩
          exact serves.takes_applicable s action a grounded applicable
      · simp only [ends_bind, ends_set]
        exact replan_legal sound serves unread s regular remaining _
          ⟨rfl, keeps.determinizer, memory.policy.grounded_erase p keeps.policy _⟩

end SimpleAgent

end Replan
