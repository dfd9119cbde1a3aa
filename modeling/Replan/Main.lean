import Replan.CommandLine

set_option autoImplicit false

namespace Replan

def searchDepth : Nat := 1000

def orFail {α : Type} (message : Error Float → String) (result : Except (Error Float) α) : IO α :=
  match result with
  | .ok a => pure a
  | .error e => throw (IO.userError (message e))

def loadConfig : Option String → IO Config
  | none => pure Config.standard
  | some path => do
      match Config.parse? (← IO.FS.readFile path) with
      | some config => pure config
      | none => throw (IO.userError (path ++ ": configuration error"))

def loadProblem (invocation : Invocation) : IO (Problem Float) := do
  let domain ← orFail Error.text (Domain.parse (← IO.FS.readFile invocation.domain))
  orFail Error.text (Problem.parse domain (← IO.FS.readFile invocation.problem))

def diceOf : Option Nat → IO (Dice Float)
  | some seed => pure (Dice.seeded (UInt64.ofNat seed))
  | none => do
      let bytes ← IO.getRandomBytes 8
      pure (Dice.seeded (bytes.foldl (fun seed byte => seed * 256 + byte.toUInt64) 0))

partial def play {α : Type} (agent : Agent Float α) (started steps : Nat) (s : State Float)
    (sim : Simulator Float) (memory : α) : IO (RunReport Float × Nat) := do
  let now ← IO.monoNanosNow
  match agent.playFrom (fun _ => now - started) steps s sim memory 1 with
  | (.error e, _, _) => throw (IO.userError e.kind.message)
  | (.ok (some report), _, memory) => pure (report, agent.invocations memory)
  | (.ok none, sim, memory) => do
      let next ← orFail (·.kind.message) sim.state
      play agent started (steps + 1) next sim memory

def playAll {α : Type} (agent : Agent Float α) (settings : SimulatorSettings) (memory : α) :
    IO String := do
  let p := agent.problem memory
  let timeout ← match settings.timeoutSeconds with
    | none => pure none
    | some seconds =>
        match Duration.ofSeconds? seconds with
        | some timeout => pure (some timeout)
        | none => throw (IO.userError "the timeout is no duration")
  let sim := ((Simulator.ofDice timeout (← diceOf settings.seed)).reset p).start 0
  let (report, invocations) ← play agent (← IO.monoNanosNow) 0 p.initialState sim memory
  pure (report.text invocations)

def answer (invocation : Invocation) : IO String := do
  let config ← loadConfig invocation.config
  let p ← loadProblem invocation
  let t := Determinizer.ofDice config.determinizer.strategy (← diceOf config.determinizer.seed)
  let planner := BreadthFirst.planner searchDepth
  match invocation.task, config.agent with
  | .determinize, _ => orFail (·.kind.message) (determinizedText t p)
  | .run, .simple => do
      let memory ← orFail (·.kind.message) (SimpleAgent.ofProblem p t ())
      playAll (SimpleAgent.agent planner) config.simulator memory
  | .run, .hindsight => do
      let dice ← diceOf config.determinizer.seed
      let memory ← orFail (·.kind.message) (HindsightAgent.ofProblem p t () config.hindsight dice)
      playAll (HindsightAgent.agent planner) config.simulator memory

end Replan

def main (args : List String) : IO UInt32 := do
  match Replan.Invocation.ofArgs? args with
  | none => do
      IO.eprintln Replan.Invocation.usage
      pure 2
  | some invocation =>
      try
        IO.print (← Replan.answer invocation)
        pure 0
      catch e =>
        IO.eprintln (toString e)
        pure 1
