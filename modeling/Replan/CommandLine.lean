import Replan.Agent.Simple
import Replan.Config.Decode
import Replan.Planner.BreadthFirst
import Replan.Source.ProblemFile

set_option autoImplicit false

namespace Replan

inductive Task where
  | determinize
  | run
deriving DecidableEq, Inhabited

structure Invocation where
  task : Task
  domain : String
  problem : String
  config : Option String
deriving DecidableEq, Inhabited

namespace Invocation

def usage : String := "usage: replan (determinize | run) DOMAIN PROBLEM [--config FILE]"

def sort : List String → Option (List String × Option String)
  | [] => some ([], none)
  | [arg] => if arg.startsWith "-" then none else some ([arg], none)
  | arg :: next :: rest =>
      if arg = "--config" ∨ arg = "-c" then
        (sort rest).bind fun (paths, config) =>
          if config.isSome then none else some (paths, some next)
      else if arg.startsWith "-" then none
      else (sort (next :: rest)).map fun (paths, config) => (arg :: paths, config)

def ofArgs? (args : List String) : Option Invocation :=
  match sort args with
  | some (["determinize", domain, problem], config) => some ⟨.determinize, domain, problem, config⟩
  | some (["run", domain, problem], config) => some ⟨.run, domain, problem, config⟩
  | _ => none

end Invocation

variable {R : Type} [Number R]

def determinizedText (t : Determinizer R) (p : Problem R) : Except (Error R) String := do
  let t ← t.setDomain p.domain
  let (classical, t) ← t.determinize p
  let versions ← t.versions
  pure ("; original\n" ++ versions.given.text ++
    "\n; preprocessed\n" ++ versions.preprocessed.text ++
    "\n; determinized\n" ++ versions.determinized.text ++
    "\n" ++ classical.text ++ "\n")

def secondsText (nanoseconds : Nat) : String :=
  Decimal.positional (Nearest.roundedQuotient nanoseconds (Nat.pow 10 6)) (-3)

def RunReport.text (report : RunReport R) (invocations : Nat) : String :=
  "status: " ++ report.status.word ++
    "\nsteps: " ++ toString report.steps ++
    "\nelapsed: " ++ secondsText report.elapsed ++
    "s\nplanner calls: " ++ toString invocations ++
    "\nreward: " ++ Number.text report.state.reward ++
    "\ntotal cost: " ++ Number.text report.state.totalCost ++ "\n"

def Diagnostic.text (d : Diagnostic R) : String :=
  let file := if d.span.inProblem then "problem" else "domain"
  file ++ " " ++ toString d.span.start ++ ".." ++ toString d.span.stop ++ ": " ++ d.kind.message

def Error.text (e : Error R) : String :=
  match e.cause with
  | none => e.toDiagnostic.text
  | some cause => e.toDiagnostic.text ++ "\n" ++ cause.text

end Replan
