import Replan.Number.Decimal
import Replan.Number.Nearest

set_option autoImplicit false

namespace Replan.Shortest

open Nearest

/-- The magnitude of a finite double, `significand * 2 ^ exponent`; `narrow` tells that the next
smaller double is only half as far away as the next larger one. -/
structure Magnitude where
  significand : Nat
  exponent : Int
  narrow : Bool
deriving DecidableEq

def Magnitude.ofBits (bits : Nat) : Magnitude :=
  let field : Nat := bits / fractionSize % 2048
  let fraction : Nat := bits % fractionSize
  if field = 0 then ⟨fraction, -1074, false⟩
  else ⟨fraction + fractionSize, (field : Int) - 1075, fraction = 0 && 1 < field⟩

structure Interval where
  low : Nat
  value : Nat
  high : Nat
  closed : Bool
  scale : Nat
deriving DecidableEq

def Magnitude.interval (x : Magnitude) : Interval :=
  let (unit, scale) : Nat × Nat := match x.exponent - 2 with
    | .ofNat e => (Nat.pow 2 e, 1)
    | .negSucc k => (1, Nat.pow 2 (k + 1))
  let below := if x.narrow then 1 else 2
  { low := (4 * x.significand - below) * unit
    value := 4 * x.significand * unit
    high := (4 * x.significand + 2) * unit
    closed := x.significand % 2 = 0
    scale }

def Interval.onGrid (i : Interval) : Int → Interval
  | .ofNat e => { i with scale := i.scale * Nat.pow 10 e }
  | .negSucc k =>
      let f := Nat.pow 10 (k + 1)
      { i with low := i.low * f, value := i.value * f, high := i.high * f }

def Interval.contains (i : Interval) (n : Nat) : Bool :=
  let x := n * i.scale
  if i.closed then i.low ≤ x && x ≤ i.high else i.low < x && x < i.high

def Interval.pick (i : Interval) : Option Nat :=
  let below := i.value / i.scale
  let above := below + 1
  match i.contains below, i.contains above with
  | false, false => none
  | true, false => some below
  | false, true => some above
  | true, true => if 2 * (i.value - below * i.scale) < i.scale then some below else some above

def search (i : Interval) (top : Int) : Nat → Nat × Int
  | 0 => (0, top)
  | steps + 1 =>
      match (i.onGrid top).pick with
      | some n => (n, top)
      | none => search i (top - 1) steps

def topExponent (x : Magnitude) : Int :=
  let binary : Int := (x.significand.log2 : Int) + 1 + x.exponent
  if 0 ≤ binary then binary * 31 / 100 + 1 else binary * 30 / 100 + 1

def digits (x : Magnitude) : Nat × Int :=
  search x.interval (topExponent x) 60

def ofMagnitude (x : Magnitude) : String :=
  if x.significand = 0 then "0" else
    let (n, exponent) := digits x
    Decimal.positional n exponent

def ofBits (bits : Nat) : String :=
  let magnitude := bits % signBit
  if infinityBits < magnitude then "NaN"
  else
    let sign := if bits < signBit then "" else "-"
    if magnitude = infinityBits then sign ++ "inf"
    else sign ++ ofMagnitude (Magnitude.ofBits magnitude)

def text (x : Float) : String := ofBits x.toBits.toNat

end Replan.Shortest
