import Replan.Simulator

set_option autoImplicit false

namespace Replan

abbrev Act (R : Type) (α : Type) (β : Type) := ExceptT (Error R) (StateM α) β

structure Agent (R : Type) (α : Type) where
  problem : α → Problem R
  invocations : α → Nat
  next : State R → Option Nat → Act R α (Option Ground)

inductive RunStatus where
  | success
  | timeout
  | planNotFound
deriving DecidableEq, Inhabited

def RunStatus.word : RunStatus → String
  | success => "Success"
  | timeout => "Timeout"
  | planNotFound => "PlanNotFound"

structure RunReport (R : Type) where
  status : RunStatus
  elapsed : Nat
  steps : Nat
  state : State R

abbrev Policy := List (List Ground × Ground)

namespace Policy

def lookup? (policy : Policy) (key : List Ground) : Option Ground :=
  (policy.find? fun entry => entry.1 = key).map Prod.snd

def erase (policy : Policy) (key : List Ground) : Policy :=
  policy.filter fun entry => !(entry.1 = key)

def insert (policy : Policy) (key : List Ground) (action : Ground) : Policy :=
  (key, action) :: policy.erase key

end Policy

namespace Agent

variable {R : Type} [Number R] {α : Type}

/-- Plays on from `s` after a number of steps, until the goal, the deadline or a state that the
agent has no action for. The clock is read three times for every step; there is no answer if the
given number of further steps is not enough. -/
def playFrom (agent : Agent R α) (clock : Nat → Nat) (steps : Nat) (s : State R)
    (sim : Simulator R) (memory : α) :
    Nat → Except (Error R) (Option (RunReport R)) × Simulator R × α
  | 0 => (.ok none, sim, memory)
  | fuel + 1 =>
      let now := 3 * steps
      let ended (status : RunStatus) (sim : Simulator R) (memory : α) :
          Except (Error R) (Option (RunReport R)) × Simulator R × α :=
        (.ok (some ⟨status, sim.elapsed (clock (now + 4)), steps, s⟩), sim, memory)
      if (agent.problem memory).isGoal s then ended .success sim memory
      else if sim.timedOut (clock (now + 1)) then ended .timeout sim memory
      else
        match agent.next s (sim.remaining (clock (now + 2))) memory with
        | (.error e, memory) => (.error e, sim, memory)
        | (.ok none, memory) => ended .planNotFound sim memory
        | (.ok (some action), memory) =>
            match sim.step (clock (now + 3)) action with
            | (.error e, sim) => (.error e, sim, memory)
            | (.ok result, sim) =>
                if result.timedOut then ended .timeout sim memory
                else playFrom agent clock (steps + 1) result.state sim memory fuel

def run (agent : Agent R α) (clock : Nat → Nat) (sim : Simulator R) (memory : α) (fuel : Nat) :
    Except (Error R) (Option (RunReport R)) × Simulator R × α :=
  let p := agent.problem memory
  playFrom agent clock 0 p.initialState ((sim.reset p).start (clock 0)) memory fuel

end Agent

end Replan
