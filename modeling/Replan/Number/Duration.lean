import Replan.Number.Nearest

set_option autoImplicit false

namespace Replan.Duration

open Nearest

def ofScaled (significand : Nat) (exponent : Int) : Nat :=
  match exponent with
  | .ofNat e => significand * Nat.pow 2 e * Nat.pow 10 9
  | .negSucc k => roundedQuotient (significand * Nat.pow 10 9) (Nat.pow 2 (k + 1))

def ofBits? (bits : Nat) : Option Nat :=
  let magnitude : Nat := bits % signBit
  let field : Nat := magnitude / fractionSize
  let fraction : Nat := magnitude % fractionSize
  if magnitude = 0 then some 0
  else if signBit ≤ bits ∨ 1023 + 64 ≤ field then none
  else if field = 0 then some (ofScaled fraction (-1074))
  else some (ofScaled (fraction + fractionSize) ((field : Int) - 1075))

def ofSeconds? (seconds : Float) : Option Nat := ofBits? seconds.toBits.toNat

end Replan.Duration
