import Replan.Number
import Replan.Random.Seed

set_option autoImplicit false

namespace Replan

structure Dice (R : Type) where
  draws : Nat → R
  used : Nat

namespace Dice

variable {R : Type}

def ofDraws (draws : Nat → R) : Dice R := ⟨draws, 0⟩

def always (draw : R) : Dice R := ofDraws fun _ => draw

def roll (d : Dice R) : R × Dice R := (d.draws d.used, { d with used := d.used + 1 })

def unitFraction (word : UInt64) : Float := (word >>> 11).toFloat / 9007199254740992.0

/-- Draws from the stream of 64-bit words that a seed stands for, low half first. -/
def seeded (seed : UInt64) : Dice Float :=
  let key := Seed.key seed
  ofDraws fun k =>
    let low := (ChaCha.word key (2 * k)).toUInt64
    let high := (ChaCha.word key (2 * k + 1)).toUInt64
    unitFraction (low ||| (high <<< 32))

def loaded (draw : Float) : Dice Float :=
  always (unitFraction ((draw * 9007199254740992.0).toUInt64 <<< 11))

end Dice

variable {R : Type} [Number R]

/-- Index of the first outcome at which the running total, starting from `total`, exceeds the draw;
the last index if there is none. -/
def pickFrom (total : R) (draw : R) : List R → Nat
  | [] => 0
  | [_] => 0
  | p :: q :: rest =>
      if Number.lt draw (total + p) then 0 else pickFrom (total + p) draw (q :: rest) + 1

def pickOutcome (probabilities : List R) (draw : R) : Nat := pickFrom Number.zero draw probabilities

end Replan
