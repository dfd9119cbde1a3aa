import Mathlib.Algebra.BigOperators.Group.List.Basic
import Mathlib.Algebra.Field.Rat
import Mathlib.Algebra.Order.Field.Basic
import Mathlib.Algebra.Order.Ring.Rat
import Replan.Number

set_option autoImplicit false

namespace Replan

class ExactNumber (K : Type) extends Field K, LinearOrder K, IsStrictOrderedRing K where
  ln : K → K
  round : K → K
  text : K → String

instance exactArithmetic {K : Type} [ExactNumber K] : Number K where
  lt a b := decide (a < b)
  le a b := decide (a ≤ b)
  eq a b := decide (a = b)
  ofDecimal digits places := (digits : K) / 10 ^ places
  ln := ExactNumber.ln
  round := ExactNumber.round
  text := ExactNumber.text

instance : ExactNumber ℚ where
  ln _ := 0
  round x := if 0 ≤ x then (x + 1 / 2).floor else (x - 1 / 2).ceil
  text x := toString x

namespace Number

variable {K : Type} [ExactNumber K]

theorem zero_exact : (zero : K) = 0 := by
  simp [zero, ofNat, ofDecimal]

theorem one_exact : (one : K) = 1 := by
  simp [one, ofNat, ofDecimal]

theorem eq_exact (x y : K) : eq x y = true ↔ x = y := decide_eq_true_iff

theorem epsilon_positive : (0 : K) < epsilon := by
  have scale : (0 : K) < 10 ^ 6 := pow_pos (by norm_num) 6
  show (0 : K) < ((1 : Nat) : K) / 10 ^ 6
  rw [Nat.cast_one]
  exact div_pos one_pos scale

theorem epsilon_le_one : (epsilon : K) ≤ 1 := by
  have scale : (1 : K) ≤ 10 ^ 6 := one_le_pow₀ (by norm_num)
  show ((1 : Nat) : K) / 10 ^ 6 ≤ 1
  rw [Nat.cast_one]
  exact div_le_one_of_le₀ scale (zero_le_one.trans scale)

theorem le_exact (x y : K) : le x y = true ↔ x ≤ y := decide_eq_true_iff

theorem lt_exact (x y : K) : lt x y = true ↔ x < y := decide_eq_true_iff

theorem sum_exact (xs : List K) : sum xs = xs.sum := by
  have onward (x : K) : xs.foldl (· + ·) x = x + xs.sum := by
    induction xs generalizing x with
    | nil => exact (add_zero x).symm
    | cons y ys ih => rw [List.foldl_cons, ih, List.sum_cons, add_assoc]
  rw [sum, onward, zero_exact, zero_add]

end Number

-- The laws that folding constants rests on. Nothing is asked of division.
class Number.Lawful (R : Type) [Number R] : Prop where
  equal (x y : R) : Number.eq x y = true ↔ x = y
  zeroAdd (x : R) : Number.zero + x = x
  addZero (x : R) : x + Number.zero = x
  subZero (x : R) : x - Number.zero = x
  zeroMul (x : R) : Number.zero * x = Number.zero
  mulZero (x : R) : x * Number.zero = Number.zero
  oneMul (x : R) : Number.one * x = x
  mulOne (x : R) : x * Number.one = x

section Laws

variable {K : Type} [ExactNumber K]

instance exact_lawful : Number.Lawful K where
  equal := Number.eq_exact
  zeroAdd x := by rw [Number.zero_exact, zero_add]
  addZero x := by rw [Number.zero_exact, add_zero]
  subZero x := by rw [Number.zero_exact, sub_zero]
  zeroMul x := by rw [Number.zero_exact, zero_mul]
  mulZero x := by rw [Number.zero_exact, mul_zero]
  oneMul x := by rw [Number.one_exact, one_mul]
  mulOne x := by rw [Number.one_exact, mul_one]

-- Exact arithmetic with another division, which may answer anything, also where the field divides.
@[reducible]
def Number.dividing (quotient : K → K → K) : Number K := { exactArithmetic with div := quotient }

theorem Number.dividing_lawful (quotient : K → K → K) :
    letI := Number.dividing quotient
    Number.Lawful K :=
  letI := Number.dividing quotient
  { equal := exact_lawful.equal
    zeroAdd := exact_lawful.zeroAdd
    addZero := exact_lawful.addZero
    subZero := exact_lawful.subZero
    zeroMul := exact_lawful.zeroMul
    mulZero := exact_lawful.mulZero
    oneMul := exact_lawful.oneMul
    mulOne := exact_lawful.mulOne }

end Laws

end Replan
