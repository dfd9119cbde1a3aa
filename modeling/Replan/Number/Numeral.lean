import Replan.Number.Decimal
import Replan.Number.Nearest

set_option autoImplicit false

namespace Replan.Numeral

structure Scientific where
  digits : Nat
  exponent : Int
deriving DecidableEq

def Scientific.toFloat (n : Scientific) : Float := Nearest.ofScientific n.digits n.exponent

def natural? (cs : List Char) : Option Nat :=
  if cs ≠ [] ∧ cs.all Char.isDigit then some (Decimal.value cs) else none

def integer? : List Char → Option Int
  | '-' :: rest => (natural? rest).map fun n => -(n : Int)
  | '+' :: rest => (natural? rest).map fun n => (n : Int)
  | rest => (natural? rest).map fun n => (n : Int)

def scientific? (cs : List Char) : Option Scientific :=
  let whole := cs.takeWhile Char.isDigit
  let afterWhole := cs.dropWhile Char.isDigit
  let (fraction, rest) := match afterWhole with
    | '.' :: tail => (tail.takeWhile Char.isDigit, tail.dropWhile Char.isDigit)
    | _ => ([], afterWhole)
  if whole.isEmpty && fraction.isEmpty then none else
    let digits := Decimal.value (whole ++ fraction)
    let places : Int := fraction.length
    match rest with
    | [] => some ⟨digits, -places⟩
    | c :: tail =>
        if c = 'e' ∨ c = 'E' then (integer? tail).map fun e => ⟨digits, e - places⟩ else none

def notANumber : Float := 0.0 / 0.0

def unsigned? (cs : List Char) : Option Float :=
  let word := cs.map Char.toLower
  if word = ['i', 'n', 'f'] ∨ word = ['i', 'n', 'f', 'i', 'n', 'i', 't', 'y'] then some Nearest.infinity
  else if word = ['n', 'a', 'n'] then some notANumber
  else (scientific? cs).map Scientific.toFloat

def float? (text : String) : Option Float :=
  match text.toList with
  | '-' :: rest => (unsigned? rest).map fun x => -x
  | '+' :: rest => unsigned? rest
  | rest => unsigned? rest

end Replan.Numeral
