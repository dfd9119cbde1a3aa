import Replan.Proofs.Number.Exact

set_option autoImplicit false

namespace Replan

namespace Number

def Proper {R : Type} [Number R] (x : R) : Prop := eq x x = true

class Ranked (R : Type) [Number R] : Prop where
  leTrans (x y z : R) : le x y = true → le y z = true → le x z = true
  leTotal (x y : R) : Proper x → Proper y → le x y = true ∨ le y x = true
  ltIff (x y : R) : Proper x → Proper y → (lt x y = true ↔ le y x = false)
  whole (n : Nat) : Proper (ofNat n : R)
  negative (x : R) : Proper x → Proper (-x)
  sum (c : R) (xs : List R) : Proper c → (∀ x ∈ xs, x = c ∨ ∃ n < UInt64.size, x = -(ofNat n)) → Proper (sum xs)
  share (x : R) (n : Nat) : Proper x → 0 < n → n < UInt64.size → Proper (x / ofNat n)

section Exact

variable {K : Type} [ExactNumber K]

theorem proper_exact (x : K) : Proper x := (eq_exact x x).mpr rfl

instance exact_ranked : Ranked K where
  leTrans x y z := by
    simp only [le_exact]
    exact le_trans
  leTotal x y _ _ := by
    simp only [le_exact]
    exact le_total x y
  ltIff x y _ _ := by rw [lt_exact, ← Bool.not_eq_true, le_exact, not_le]
  whole _ := proper_exact _
  negative _ _ := proper_exact _
  sum _ _ _ _ := proper_exact _
  share _ _ _ _ _ := proper_exact _

end Exact

end Number

end Replan
