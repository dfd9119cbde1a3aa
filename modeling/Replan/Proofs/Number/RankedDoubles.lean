import Mathlib.Data.Prod.Lex
import Mathlib.Order.Compare
import Replan.Proofs.Number.Ranking
import Replan.Proofs.Number.Rounding

set_option autoImplicit false

namespace Replan.Double

open Float.Model (UnpackedFloat Format)
open Float.Model.UnpackedFloat

theorem unpack_bits (b : Nat) (bounded : b < 2047 * 2 ^ 52) :
    unpack Format.binary64 (UInt64.ofNat b).toBitVec =
      unpack Format.binary64
        (packComponents Format.binary64 .positive (BitVec.ofNat 11 (b / 2 ^ 52)) (BitVec.ofNat 52 b)) := by
  congr 1
  apply BitVec.eq_of_toNat_eq
  have value : (UInt64.ofNat b).toBitVec.toNat = b := by
    show b % 2 ^ 64 = b
    omega
  have append : (packComponents Format.binary64 .positive (BitVec.ofNat 11 (b / 2 ^ 52)) (BitVec.ofNat 52 b)).toNat =
      ((0 <<< 11 ||| (b / 2 ^ 52) % 2 ^ 11) <<< 52 ||| b % 2 ^ 52) := by
    rw [packComponents, BitVec.toNat_append, BitVec.toNat_append, BitVec.toNat_ofNat, BitVec.toNat_ofNat]
    rfl
  have low : b % 2 ^ 52 < 2 ^ 52 := Nat.mod_lt _ (Nat.two_pow_pos 52)
  rw [value, append, Nat.zero_shiftLeft, Nat.zero_or, ← Nat.shiftLeft_add_eq_or_of_lt low, Nat.shiftLeft_eq]
  omega

theorem unit_exponent (n : Nat) :
    (n.log2 : Int) - 53 ≤ Nearest.unitExponent n 1 ∧ Nearest.unitExponent n 1 ≤ n.log2 - 52 := by
  have one : Nat.log2 1 = 0 := rfl
  unfold Nearest.unitExponent
  dsimp only
  rw [one]
  split <;> omega

theorem quotient_bounded (n : Nat) (e : Int) (least : (n.log2 : Int) - 53 ≤ e) :
    (Nearest.inUnits n 1 e).1 / (Nearest.inUnits n 1 e).2 < 2 ^ 54 := by
  have below : n < 2 ^ (n.log2 + 1) := Nat.lt_log2_self
  cases e with
  | ofNat e =>
      have least : (n.log2 : Int) - 53 ≤ e := least
      have room : 2 ^ (n.log2 + 1) ≤ 2 ^ (54 + e) := Nat.pow_le_pow_right (by decide) (by omega)
      show n / (1 * 2 ^ e) < 2 ^ 54
      rw [Nat.one_mul, Nat.div_lt_iff_lt_mul (Nat.two_pow_pos e), ← Nat.pow_add]
      exact below.trans_le room
  | negSucc k =>
      have room : 2 ^ (n.log2 + 1 + (k + 1)) ≤ 2 ^ 54 := Nat.pow_le_pow_right (by decide) (by omega)
      show n * 2 ^ (k + 1) / 1 < 2 ^ 54
      rw [Nat.div_one]
      rw [Nat.pow_add] at room
      exact (Nat.mul_lt_mul_of_pos_right below (Nat.two_pow_pos _)).trans_le room

theorem rounded_quotient (n d : Nat) : Nearest.roundedQuotient n d ≤ n / d + 1 := by
  unfold Nearest.roundedQuotient
  dsimp only
  split
  · exact Nat.le_succ _
  · split
    · exact Nat.le_refl _
    · split
      · exact Nat.le_succ _
      · exact Nat.le_refl _

theorem bits_bounded (n : Nat) (pos : 0 < n) (word : n < 2 ^ 64) :
    2 ^ 52 ≤ Nearest.bits n 1 ∧ Nearest.bits n 1 < 1100 * 2 ^ 52 := by
  obtain ⟨least, greatest⟩ := unit_exponent n
  have few : n.log2 < 64 := (Nat.log2_lt pos.ne').mpr word
  have quotient := quotient_bounded n _ least
  have rounded := rounded_quotient (Nearest.inUnits n 1 (Nearest.unitExponent n 1)).1
    (Nearest.inUnits n 1 (Nearest.unitExponent n 1)).2
  have infinity : Nearest.infinityBits = 2047 * 2 ^ 52 := rfl
  have size : Nearest.fractionSize = 2 ^ 52 := rfl
  unfold Nearest.bits
  rw [if_neg pos.ne', infinity, size]
  dsimp only
  omega

theorem whole_bits (n : Nat) (pos : 0 < n) :
    (Number.ofNat n : Float).toModel.unpack =
      stored (unpack Format.binary64 (UInt64.ofNat (Nearest.bits n 1)).toBitVec) := by
  have fraction : (Number.ofNat n : Float) = Nearest.ofFraction n 1 := by
    show Nearest.ofScientific n 0 = _
    unfold Nearest.ofScientific
    rw [if_neg pos.ne']
    show Nearest.ofFraction (n * 1) 1 = _
    rw [Nat.mul_one]
  rw [fraction]
  rfl

theorem whole_double (n : Nat) (pos : 0 < n) (word : n < 2 ^ 64) (b : Nat) (large : 1200 ≤ b) :
    ∃ m e pos', (Number.ofNat n : Float).toModel.unpack = .finite .positive m e pos' ∧ Canonical m e ∧
      size m e ≤ 2 ^ b := by
  obtain ⟨least, greatest⟩ := bits_bounded n pos word
  rw [whole_bits n pos]
  generalize Nearest.bits n 1 = w at *
  have inside : w / 2 ^ 52 < 2047 := by omega
  have exponent := field_value _ inside
  have mantissa : (BitVec.ofNat 52 w).toNat = w % 2 ^ 52 := BitVec.toNat_ofNat w 52
  rw [unpack_bits w (by omega), unpack_components _ _ _ (field_finite _ inside),
    if_neg (field_normal _ inside (by omega))]
  have canonical : Canonical (2 ^ 52 + (BitVec.ofNat 52 w).toNat) ((BitVec.ofNat 11 (w / 2 ^ 52)).toNat - 1075) :=
    ⟨by omega, by omega, .inl (Nat.le_add_right _ _)⟩
  have bounded : size (2 ^ 52 + (BitVec.ofNat 52 w).toNat) ((BitVec.ofNat 11 (w / 2 ^ 52)).toNat - 1075) ≤ 2 ^ b := by
    have fits : 53 + ((BitVec.ofNat 11 (w / 2 ^ 52)).toNat - 1075 + 1074 : Int).toNat ≤ b := by omega
    refine le_trans ?_ (Nat.pow_le_pow_right (by decide) fits)
    rw [Nat.pow_add]
    exact Nat.mul_le_mul_right _ canonical.short.le
  exact ⟨_, _, _, stored_canonical _ _ _ _ canonical (by omega), canonical, bounded⟩

def rank : UnpackedFloat → Int ×ₗ Int ×ₗ Int
  | .infinity .negative => toLex (-2, toLex (0, 0))
  | .finite .negative m e _ => toLex (-1, toLex (-e, -m))
  | .zero _ => toLex (0, toLex (0, 0))
  | .finite .positive m e _ => toLex (1, toLex (e, m))
  | .infinity .positive => toLex (2, toLex (0, 0))
  | .notANumber => toLex (0, toLex (0, 0))

theorem compare_negated (a b : Int) : compare (-a) (-b) = compare b a := by
  rcases lt_trichotomy a b with less | rfl | more
  · rw [Int.compare_eq_gt.mpr (Int.neg_lt_neg less), Int.compare_eq_gt.mpr less]
  · rw [Int.compare_eq_eq.mpr rfl, Int.compare_eq_eq.mpr rfl]
  · rw [Int.compare_eq_lt.mpr (Int.neg_lt_neg more), Int.compare_eq_lt.mpr more]

theorem compare_whole (m n : Nat) : compare (m : Int) (n : Int) = compare m n := by
  rcases lt_trichotomy m n with less | rfl | more
  · rw [Int.compare_eq_lt.mpr (Int.ofNat_lt.mpr less), Nat.compare_eq_lt.mpr less]
  · rw [Int.compare_eq_eq.mpr rfl, Nat.compare_eq_eq.mpr rfl]
  · rw [Int.compare_eq_gt.mpr (Int.ofNat_lt.mpr more), Nat.compare_eq_gt.mpr more]

theorem compare_rank (u v : UnpackedFloat) (first : u ≠ .notANumber) (second : v ≠ .notANumber) :
    u.compare v = some (compare (rank u) (rank v)) := by
  cases u with
  | notANumber => exact absurd rfl first
  | infinity s =>
      cases v with
      | notANumber => exact absurd rfl second
      | infinity t => cases s <;> cases t <;> rfl
      | zero t => cases s <;> rfl
      | finite t n f => cases s <;> cases t <;> rfl
  | zero s =>
      cases v with
      | notANumber => exact absurd rfl second
      | infinity t => cases t <;> rfl
      | zero t => rfl
      | finite t n f => cases t <;> rfl
  | finite s m e =>
      cases v with
      | notANumber => exact absurd rfl second
      | infinity t => cases s <;> cases t <;> rfl
      | zero t => cases s <;> rfl
      | finite t n f =>
          cases s with
          | negative =>
              cases t with
              | positive => rfl
              | negative =>
                  show some ((compare e f).then (compare m n)).swap =
                    some ((compare (-e) (-f)).then (compare (-(m : Int)) (-(n : Int))))
                  rw [compare_negated, compare_negated, compare_whole, Ordering.swap_then, Int.compare_swap,
                    Nat.compare_swap]
          | positive =>
              cases t with
              | negative => rfl
              | positive =>
                  show some ((compare e f).then (compare m n)) = some ((compare e f).then (compare (m : Int) (n : Int)))
                  rw [compare_whole]

theorem proper_iff (x : Float) : Number.Proper x ↔ x.toModel.unpack ≠ .notANumber := by
  have meaning : Number.Proper x ↔ (x.toModel.unpack.compare x.toModel.unpack == some .eq) = true := Iff.rfl
  rw [meaning]
  constructor
  · intro equal same
    rw [same] at equal
    cases equal
  · intro number
    rw [compare_rank _ _ number number, compare_eq_iff_eq.mpr rfl]
    rfl

theorem le_iff_rank (x y : Float) (first : x.toModel.unpack ≠ .notANumber) (second : y.toModel.unpack ≠ .notANumber) :
    Number.le x y = true ↔ rank x.toModel.unpack ≤ rank y.toModel.unpack := by
  rw [Number.float_le, compare_rank _ _ first second, Option.any_some, ← compare_le_iff_le]
  cases compare (rank x.toModel.unpack) (rank y.toModel.unpack) <;> decide

theorem lt_iff_rank (x y : Float) (first : x.toModel.unpack ≠ .notANumber) (second : y.toModel.unpack ≠ .notANumber) :
    Number.lt x y = true ↔ rank x.toModel.unpack < rank y.toModel.unpack := by
  rw [Number.float_lt, compare_rank _ _ first second, ← compare_lt_iff_lt]
  cases compare (rank x.toModel.unpack) (rank y.toModel.unpack) <;> decide

theorem le_numbers (x y : Float) (below : Number.le x y = true) :
    x.toModel.unpack ≠ .notANumber ∧ y.toModel.unpack ≠ .notANumber := by
  rw [Number.float_le] at below
  constructor
  · intro same
    rw [same] at below
    cases below
  · intro same
    rw [same] at below
    revert below
    cases x.toModel.unpack with
    | infinity s => cases s <;> nofun
    | finite s => cases s <;> nofun
    | _ => nofun

theorem sum_keeps (P Q : UnpackedFloat → Prop) (zero : P (.zero .positive))
    (add : ∀ u v, P u → Q v → P (stored (UnpackedFloat.add Format.binary64 u v))) (xs : List Float)
    (each : ∀ x ∈ xs, Q x.toModel.unpack) : P (Number.sum xs).toModel.unpack := by
  suffices ∀ x : Float, P x.toModel.unpack → P (xs.foldl (· + ·) x).toModel.unpack from this Number.zero zero
  induction xs with
  | nil => exact fun x known => known
  | cons y ys ih =>
      obtain ⟨first, others⟩ := List.forall_mem_cons.mp each
      exact fun x known => ih others (x + y) (add _ _ known first)

theorem whole_zero : (Number.ofNat 0 : Float).toModel.unpack = .zero .positive := by rfl

theorem whole_number (n : Nat) : (Number.ofNat n : Float).toModel.unpack ≠ .notANumber := by
  rcases Nat.eq_zero_or_pos n with rfl | pos
  · rw [whole_zero]
    nofun
  · rw [whole_bits n pos]
    refine stored_number _ ?_
    have greatest : Nearest.bits n 1 ≤ 2047 * 2 ^ 52 := by
      unfold Nearest.bits
      rw [if_neg pos.ne']
      exact Nat.min_le_right _ _
    rcases Nat.lt_or_eq_of_le greatest with small | infinite
    · rw [unpack_bits _ small, unpack_components _ _ _ (field_finite _ (by omega))]
      split
      · split <;> nofun
      · nofun
    · rw [infinite]
      exact fun same => by cases same

theorem minus_whole (n : Nat) (word : n < 2 ^ 64) (b : Nat) (large : 1200 ≤ b) (fits : b ≤ 2000) :
    Slight b (-(Number.ofNat n : Float)).toModel.unpack := by
  show Slight b (stored (UnpackedFloat.neg (Number.ofNat n : Float).toModel.unpack))
  rcases Nat.eq_zero_or_pos n with rfl | pos
  · rw [whole_zero]
    trivial
  · obtain ⟨m, e, pos', whole, canonical, bounded⟩ := whole_double n pos word b large
    rw [whole]
    show Slight b (stored (.finite .negative m e pos'))
    rw [slight_stored _ m e pos' canonical b bounded fits]
    exact ⟨rfl, canonical, bounded⟩

theorem slight_finite (b : Nat) (u : UnpackedFloat) (slight : Slight b u) : u.isFinite = true := by
  cases u with
  | zero => rfl
  | finite => rfl
  | _ => cases slight

theorem slight_at_most_zero (b : Nat) (u : UnpackedFloat) (slight : Slight b u) : AtMostZero u := by
  cases u with
  | zero => trivial
  | finite => exact slight.1
  | _ => cases slight

theorem at_most_zero_number (u : UnpackedFloat) (atMost : AtMostZero u) : u ≠ .notANumber := by
  rintro rfl
  cases atMost

theorem add_gain (b : Nat) (large : 54 ≤ b) (fits : b ≤ 2000) (u v : UnpackedFloat)
    (first : u = .infinity .positive ∨ Slight b u) (second : v = .infinity .positive ∨ Slight (b - 54) v) :
    stored (UnpackedFloat.add Format.binary64 u v) = .infinity .positive ∨
      Slight b (stored (UnpackedFloat.add Format.binary64 u v)) := by
  rcases first with rfl | slight
  · left
    rcases second with rfl | slight'
    · rfl
    · cases v with
      | zero => exact stored_infinity .positive
      | finite => exact stored_infinity .positive
      | _ => cases slight'
  · rcases second with rfl | slight'
    · left
      cases u with
      | zero => exact stored_infinity .positive
      | finite => exact stored_infinity .positive
      | _ => cases slight
    · exact .inr (add_slight b large fits u v slight slight')

theorem sum_number (c : Float) (xs : List Float) (number : c.toModel.unpack ≠ .notANumber)
    (each : ∀ x ∈ xs, x = c ∨ ∃ n < UInt64.size, x = -(Number.ofNat n)) :
    (Number.sum xs).toModel.unpack ≠ .notANumber := by
  have lengths (Q : UnpackedFloat → Prop) (constant : Q c.toModel.unpack) (length : ∀ u, Slight 1220 u → Q u) :
      ∀ x ∈ xs, Q x.toModel.unpack := by
    intro x member
    rcases each x member with rfl | ⟨n, word, rfl⟩
    · exact constant
    · exact length _ (minus_whole n word 1220 (by decide) (by decide))
  have bounded (finite : c.toModel.unpack.isFinite = true) : (Number.sum xs).toModel.unpack ≠ .notANumber :=
    sum_keeps (· ≠ .notANumber) (·.isFinite = true) nofun add_finite xs (lengths _ finite (slight_finite 1220))
  cases constant : c.toModel.unpack with
  | notANumber => exact absurd constant number
  | zero s => exact bounded (by rw [constant]; rfl)
  | finite s m e => exact bounded (by rw [constant]; rfl)
  | infinity s =>
      cases s with
      | negative =>
          exact at_most_zero_number _ (sum_keeps AtMostZero AtMostZero trivial add_at_most_zero xs
            (lengths _ (by rw [constant]; rfl) (slight_at_most_zero 1220)))
      | positive =>
          have gains := sum_keeps (fun u => u = .infinity .positive ∨ Slight 1274 u)
            (fun v => v = .infinity .positive ∨ Slight 1220 v) (.inr trivial) (add_gain 1274 (by decide) (by decide)) xs
            (lengths (fun v => v = .infinity .positive ∨ Slight 1220 v) (.inl constant) fun _ => .inr)
          rcases gains with infinite | slight
          · rw [infinite]
            nofun
          · exact finite_number _ (slight_finite 1274 _ slight)

theorem share_number (x : Float) (n : Nat) (number : x.toModel.unpack ≠ .notANumber) (pos : 0 < n) (word : n < 2 ^ 64) :
    (x / Number.ofNat n).toModel.unpack ≠ .notANumber := by
  show stored (UnpackedFloat.div Format.binary64 x.toModel.unpack (Number.ofNat n : Float).toModel.unpack) ≠ _
  obtain ⟨m, e, pos', whole, -, -⟩ := whole_double n pos word 1200 (Nat.le_refl _)
  rw [whole]
  refine stored_number _ ?_
  cases shared : x.toModel.unpack with
  | notANumber => exact absurd shared number
  | finite s m' e' => exact finite_number _ (rounded_finite _ _ _ _)
  | _ => nofun

instance : Number.Ranked Float where
  leTrans x y z below above := by
    obtain ⟨first, second⟩ := le_numbers x y below
    obtain ⟨-, third⟩ := le_numbers y z above
    rw [le_iff_rank x y first second] at below
    rw [le_iff_rank y z second third] at above
    exact (le_iff_rank x z first third).mpr (below.trans above)
  leTotal x y first second := by
    rw [proper_iff] at first second
    rw [le_iff_rank x y first second, le_iff_rank y x second first]
    exact le_total _ _
  ltIff x y first second := by
    rw [proper_iff] at first second
    rw [lt_iff_rank x y first second, ← Bool.not_eq_true, le_iff_rank y x second first, not_le]
  whole n := (proper_iff _).mpr (whole_number n)
  negative x proper := by
    rw [proper_iff] at proper ⊢
    refine stored_number (UnpackedFloat.neg x.toModel.unpack) ?_
    cases negated : x.toModel.unpack with
    | notANumber => exact absurd negated proper
    | _ => nofun
  sum c xs proper each := (proper_iff _).mpr (sum_number c xs ((proper_iff c).mp proper) each)
  share x n proper pos word := (proper_iff _).mpr (share_number x n ((proper_iff x).mp proper) pos word)

end Replan.Double
