set_option autoImplicit false

namespace Replan.Nearest

def roundedQuotient (num den : Nat) : Nat :=
  let quotient := num / den
  let twice := 2 * (num % den)
  if twice < den then quotient
  else if den < twice then quotient + 1
  else if quotient % 2 = 0 then quotient else quotient + 1

def inUnits (num den : Nat) : Int → Nat × Nat
  | .ofNat e => (num, den * Nat.pow 2 e)
  | .negSucc k => (num * Nat.pow 2 (k + 1), den)

def fractionSize : Nat := Nat.pow 2 52

def signBit : Nat := Nat.pow 2 63

def infinityBits : Nat := 0x7FF0000000000000

def infinity : Float := Float.ofBits (UInt64.ofNat infinityBits)

def unitExponent (num den : Nat) : Int :=
  let guess : Int := (num.log2 : Int) - (den.log2 : Int) - 52
  let (n, d) := inUnits num den guess
  let exact := if n / d < fractionSize then guess - 1 else guess
  max exact (-1074)

/-- Bits of the double nearest to `num / den`. A significand that rounds up to `2 ^ 53` carries into
the exponent field by itself. -/
def bits (num den : Nat) : Nat :=
  if num = 0 then 0 else
    let exponent := unitExponent num den
    let (n, d) := inUnits num den exponent
    min ((exponent + 1074).toNat * fractionSize + roundedQuotient n d) infinityBits

def ofFraction (num den : Nat) : Float := Float.ofBits (UInt64.ofNat (bits num den))

def ofScientific (digits : Nat) (exponent : Int) : Float :=
  if digits = 0 then 0.0 else
    match exponent with
    | .ofNat e => if 400 < e then infinity else ofFraction (digits * Nat.pow 10 e) 1
    | .negSucc k =>
        if digits.log2 + 1200 < 3 * (k + 1) then 0.0 else ofFraction digits (Nat.pow 10 (k + 1))

end Replan.Nearest
