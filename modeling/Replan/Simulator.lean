import Replan.Successor

set_option autoImplicit false

namespace Replan

structure Simulator (R : Type) where
  loaded : Option (Problem R × State R)
  timeout : Option Nat
  started : Option Nat
  dice : Dice R
  history : List (Ground × State R)

structure StepResult (R : Type) where
  done : Bool
  timedOut : Bool
  state : State R

namespace Simulator

variable {R : Type}

def ofDice (timeout : Option Nat) (dice : Dice R) : Simulator R := ⟨none, timeout, none, dice, []⟩

def start (sim : Simulator R) (now : Nat) : Simulator R := { sim with started := some now }

def elapsed (sim : Simulator R) (now : Nat) : Nat :=
  match sim.started with
  | none => 0
  | some time => now - time

def remaining (sim : Simulator R) (now : Nat) : Option Nat :=
  sim.timeout.map fun timeout => timeout - sim.elapsed now

def timedOut (sim : Simulator R) (now : Nat) : Bool :=
  match sim.timeout with
  | none => false
  | some timeout => timeout ≤ sim.elapsed now

def problem (sim : Simulator R) : Except (Error R) (Problem R) :=
  match sim.loaded with
  | none => .error (.of .noProblem)
  | some (p, _) => .ok p

def state (sim : Simulator R) : Except (Error R) (State R) :=
  match sim.loaded with
  | none => .error (.of .noProblem)
  | some (_, s) => .ok s

variable [Number R]

def reset (sim : Simulator R) (p : Problem R) : Simulator R :=
  { sim with loaded := some (p, p.initialState), started := none, history := [] }

def step (sim : Simulator R) (now : Nat) (action : Ground) :
    Except (Error R) (StepResult R) × Simulator R :=
  match sim.loaded with
  | none => (.error (.of .noProblem), sim)
  | some (p, s) =>
      if sim.timedOut now then (.ok ⟨p.isGoal s, true, s⟩, sim)
      else
        match p.sample s action sim.dice with
        | (.error e, dice) => (.error e, { sim with dice })
        | (.ok next, dice) =>
            (.ok ⟨p.isGoal next, false, next⟩,
              { sim with
                loaded := some (p, next)
                dice
                history := sim.history ++ [(action, next)] })

end Simulator

end Replan
