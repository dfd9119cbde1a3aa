import Replan.Output.Line

set_option autoImplicit false

namespace Replan.Output.FastDownward

def afterStamp? (line : List Char) : Option (List Char) :=
  match trimStart line with
  | '[' :: rest =>
      match rest.dropWhile fun c => c != ']' with
      | [] => none
      | _ :: text => some text
  | _ => some line

def splitLast? (cs : List Char) : Option (List Char × List Char) :=
  let last := (cs.reverse.takeWhile fun c => c != ' ').reverse
  match cs.reverse.dropWhile fun c => c != ' ' with
  | [] => none
  | _ :: before => some (before.reverse, last)

def isCost (cs : List Char) : Bool :=
  match cs with
  | '(' :: rest =>
      match rest.reverse with
      | ')' :: digits => (Numeral.float? (String.ofList digits.reverse)).isSome
      | _ => false
  | _ => false

def stepOf? (line : List Char) : Option Ground :=
  (afterStamp? line).bind fun text =>
    (splitLast? (trim text)).bind fun (before, cost) => if isCost cost then step? before else none

def planCost? (line : List Char) : Option Float :=
  ((from? "Plan cost:".toList line).bind (labelled? "Plan cost:")).map Prod.fst

def read (elapsed : Option Float) : List (List Char) → Option PlannerOutput
  | [] => none
  | line :: rest =>
      match labelled? "Actual search time:" line with
      | some (time, after) => read (if after.head? == some 's' then some time else elapsed) rest
      | none =>
          if contains "Plan length:".toList line then read elapsed rest
          else
            match planCost? line with
            | some cost => some ⟨[], cost, elapsed⟩
            | none =>
                match stepOf? line with
                | none => read elapsed rest
                | some step =>
                    (read elapsed rest).map fun output =>
                      { output with plan := step :: output.plan }

def parse? (out : String) : Option PlannerOutput :=
  (from? "Solution found!".toList out.toList).bind fun body => read none ((lines body).drop 1)

end Replan.Output.FastDownward
