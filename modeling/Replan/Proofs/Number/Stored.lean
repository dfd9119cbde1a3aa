import Mathlib
import Replan.Proofs.Number.Zeros

set_option autoImplicit false

namespace Replan.Double

open Float.Model (UnpackedFloat Format)
open Float.Model.UnpackedFloat

-- What a double that was computed without a bound on its exponent is stored as.
def stored (u : UnpackedFloat) : UnpackedFloat := (Float.Model.pack u).unpack

theorem stored_infinity (s : Sign) : stored (.infinity s) = .infinity s := by
  cases s <;> rfl

theorem stored_zero (s : Sign) : stored (.zero s) = .zero s := by
  cases s <;> rfl

theorem implicit_bit (m : BitVec 52) : (1#1 ++ m).toNat = 2 ^ 52 + m.toNat := by
  rw [BitVec.toNat_append, ← Nat.shiftLeft_add_eq_or_of_lt m.isLt]
  rfl

theorem field_value (k : Nat) (fits : k < 2047) : (BitVec.ofNat 11 k).toNat = k := by
  rw [BitVec.toNat_ofNat, Nat.mod_eq_of_lt (fits.trans (by decide))]

theorem field_finite (k : Nat) (fits : k < 2047) : BitVec.ofNat 11 k ≠ -1#11 := by
  intro greatest
  have same : k = 2047 := (field_value k fits).symm.trans (congrArg BitVec.toNat greatest)
  omega

theorem field_normal (k : Nat) (fits : k < 2047) (some : 0 < k) : BitVec.ofNat 11 k ≠ 0#11 := by
  intro least
  have same : k = 0 := (field_value k fits).symm.trans (congrArg BitVec.toNat least)
  omega

theorem finite_same (s : Sign) (m n : Nat) (e f : Int) (pos : 0 < m) (pos' : 0 < n) (mantissa : m = n) (exponent : e = f) :
    UnpackedFloat.finite s m e pos = .finite s n f pos' := by
  subst mantissa exponent
  rfl

theorem unpack_components (s : Sign) (e : BitVec 11) (m : BitVec 52) (finite : e ≠ -1#11) :
    unpack Format.binary64 (packComponents Format.binary64 s e m) =
      if e = 0#11 then
        if h : m = 0#52 then .zero s
        else .finite s m.toNat (-1074) (by simpa [BitVec.toNat_pos, BitVec.pos_iff_ne_zero] using h)
      else .finite s (2 ^ 52 + m.toNat) (e.toNat - 1075) (by omega) := by
  unfold unpack
  simp only [unpackMantissa_packComponents, unpackExponent_packComponents, unpackSign_packComponents,
    Sign.ofBitVec_toBitVec]
  rw [if_neg finite]
  by_cases low : e = 0#11
  · subst low
    rw [if_pos rfl, if_pos rfl]
    rfl
  · rw [if_neg low, if_neg low]
    exact finite_same s _ _ _ _ _ _ (implicit_bit m) rfl

theorem pack_finite (s : Sign) (m : Nat) (e : Int) (pos : 0 < m) :
    pack Format.binary64 (.finite s m e pos) =
      if 2047 ≤ (e + 1075).toNat then packedInfinity Format.binary64 s
      else packComponents Format.binary64 s (if m.log2 = 52 then BitVec.ofNat 11 (e + 1075).toNat else 0#11)
        (BitVec.ofNat 52 m) := by
  have biased : e + Format.binary64.exponentBias + Format.binary64.mantissaBitsWithoutImplicit = e + 1075 :=
    Int.add_assoc e 1023 52
  unfold pack
  simp only [biased]
  generalize (e + 1075).toNat = exponent
  show (if 2 ^ 11 ≤ exponent + 1 then _ else if m.log2 + 1 = 53 then _ else _) = _
  by_cases overflows : 2047 ≤ exponent
  · rw [if_pos (by omega), if_pos overflows]
  · rw [if_neg (by omega), if_neg overflows]
    by_cases full : m.log2 = 52
    · rw [if_pos (congrArg (· + 1) full), if_pos full]
    · rw [if_neg fun same => full (Nat.succ.inj same), if_neg full]

theorem stored_finite (s : Sign) (m : Nat) (e : Int) (pos : 0 < m) :
    stored (.finite s m e pos) = .infinity s ∨ stored (.finite s m e pos) = .zero s ∨
      ∃ m' e' pos', stored (.finite s m e pos) = .finite s m' e' pos' := by
  have read : stored (.finite s m e pos) = unpack Format.binary64 (pack Format.binary64 (.finite s m e pos)) := rfl
  rw [read, pack_finite]
  split
  · exact .inl (stored_infinity s)
  · next inside =>
      right
      have finite : (if m.log2 = 52 then BitVec.ofNat 11 (e + 1075).toNat else 0#11) ≠ -1#11 := by
        split
        · exact field_finite _ (by omega)
        · decide
      rw [unpack_components s _ _ finite]
      generalize (if m.log2 = 52 then BitVec.ofNat 11 (e + 1075).toNat else 0#11) = exponent
      split
      · split
        · exact .inl rfl
        · next nonzero =>
            have pos' : 0 < (BitVec.ofNat 52 m).toNat := Nat.pos_of_ne_zero fun none => nonzero (BitVec.eq_of_toNat_eq none)
            exact .inr ⟨_, _, pos', rfl⟩
      · exact .inr ⟨_, _, Nat.add_pos_left (by decide) _, rfl⟩

-- Finite doubles, the way they are stored: all bits of the mantissa are used, unless the exponent is the least.
structure Canonical (m : Nat) (e : Int) : Prop where
  short : m < 2 ^ 53
  least : -1074 ≤ e
  full : 2 ^ 52 ≤ m ∨ e = -1074

theorem stored_canonical (s : Sign) (m : Nat) (e : Int) (pos : 0 < m) (canonical : Canonical m e) (bounded : e ≤ 971) :
    stored (.finite s m e pos) = .finite s m e pos := by
  have least := canonical.least
  have read : stored (.finite s m e pos) = unpack Format.binary64 (pack Format.binary64 (.finite s m e pos)) := rfl
  rw [read, pack_finite, if_neg (by omega)]
  by_cases full : 2 ^ 52 ≤ m
  · have bits : m.log2 = 52 := by
      have lower := (Nat.le_log2 pos.ne').mpr full
      have upper := (Nat.log2_lt pos.ne').mpr canonical.short
      omega
    have inside : (e + 1075).toNat < 2047 := by omega
    have exponent := field_value _ inside
    have mantissa : 2 ^ 52 + (BitVec.ofNat 52 m).toNat = m := by
      rw [BitVec.toNat_ofNat]
      have short := canonical.short
      omega
    rw [if_pos bits, unpack_components _ _ _ (field_finite _ inside), if_neg (field_normal _ inside (by omega))]
    exact finite_same s _ _ _ _ _ _ mantissa (by omega)
  · have lowest : e = -1074 := canonical.full.resolve_left full
    have bits : m.log2 ≠ 52 := by
      have upper := (Nat.log2_lt pos.ne').mpr (Nat.lt_of_not_le full)
      omega
    have mantissa : (BitVec.ofNat 52 m).toNat = m := by
      rw [BitVec.toNat_ofNat, Nat.mod_eq_of_lt (Nat.lt_of_not_le full)]
    have nonzero : BitVec.ofNat 52 m ≠ 0#52 := fun zero => by
      have same := mantissa.symm.trans (congrArg BitVec.toNat zero)
      exact pos.ne' same
    rw [if_neg bits, unpack_components _ _ _ (by decide), if_pos rfl, dif_neg nonzero]
    exact finite_same s _ _ _ _ _ _ mantissa lowest.symm

theorem stored_number (u : UnpackedFloat) (number : u ≠ .notANumber) : stored u ≠ .notANumber := by
  cases u with
  | notANumber => exact absurd rfl number
  | infinity s => rw [stored_infinity]; nofun
  | zero s => rw [stored_zero]; nofun
  | finite s m e pos =>
      obtain inf | zero | ⟨_, _, _, fin⟩ := stored_finite s m e pos
      · rw [inf]; nofun
      · rw [zero]; nofun
      · rw [fin]; nofun

end Replan.Double
