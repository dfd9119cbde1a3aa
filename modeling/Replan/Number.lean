import Replan.Number.Nearest
import Replan.Number.Shortest

set_option autoImplicit false

namespace Replan

/-- Arithmetic, comparison and text of the numbers of a model. -/
class Number (R : Type) extends Add R, Sub R, Mul R, Div R, Neg R where
  lt : R → R → Bool
  le : R → R → Bool
  eq : R → R → Bool
  ofDecimal (digits places : Nat) : R
  ln : R → R
  round : R → R
  text : R → String

namespace Number

variable {R : Type} [Number R]

def ofNat (n : Nat) : R := ofDecimal n 0

def zero : R := ofNat 0

def one : R := ofNat 1

def epsilon : R := ofDecimal 1 6

def isZero (x : R) : Bool := eq x zero

def source (x : R) : String := if isZero x then "0" else text x

def sum (xs : List R) : R := xs.foldl (· + ·) zero

def squarings (result base : R) : Nat → Nat → R
  | 0, _ => result
  | fuel + 1, n =>
      let next := if n % 2 = 1 then result * base else result
      if n / 2 = 0 then next else squarings next (base * base) fuel (n / 2)

def power (base : R) : Int → R
  | .ofNat n => squarings one base (n + 1) n
  | .negSucc n => one / squarings one base (n + 2) (n + 1)

end Number

instance : Number Float where
  lt a b := a < b
  le a b := a ≤ b
  eq a b := a == b
  ofDecimal digits places := Nearest.ofScientific digits (-(places : Int))
  ln := Float.log
  round := Float.round
  text := Shortest.text

end Replan
