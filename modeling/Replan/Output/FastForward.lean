import Replan.Output.Line

set_option autoImplicit false

namespace Replan.Output.FastForward

def stepText? (line : List Char) : Option (List Char) :=
  let afterSpaces := skipSpaces line
  let afterWord := skipSpaces ((Text.strip? "step".toList afterSpaces).getD afterSpaces)
  match afterWord.takeWhile Char.isDigit, afterWord.dropWhile Char.isDigit with
  | _ :: _, ':' :: rest => some (skipSpaces rest)
  | _, _ => none

def totalTime? (line : List Char) : Option Float :=
  match number? (skipSpaces line) with
  | none => none
  | some (time, rest) => (Text.strip? " seconds total time".toList rest).map fun _ => time

def steps? : List (List Char) → Option (Plan × Option Float)
  | [] => some ([], none)
  | line :: rest =>
      match stepText? line with
      | some text =>
          match step? text with
          | none => none
          | some step => (steps? rest).map fun (plan, cost) => (step :: plan, cost)
      | none =>
          match labelled? "plan cost:" line with
          | some (cost, _) => some ([], some cost)
          | none => if contains "time spent".toList line then some ([], none) else steps? rest

/-- What FF reports, if it reports a plan. Without a cost every step counts one. -/
def parse? (out : String) : Option PlannerOutput :=
  let text := out.toList
  let elapsed := (lines text).findSome? totalTime?
  if contains "The empty plan solves it".toList text then some ⟨[], Number.zero, elapsed⟩
  else
    match from? "ff: found legal plan as follows".toList text with
    | none => none
    | some body =>
        (steps? ((lines body).drop 1)).map fun (plan, cost) =>
          ⟨plan, cost.getD (Number.ofNat plan.length), elapsed⟩

end Replan.Output.FastForward
