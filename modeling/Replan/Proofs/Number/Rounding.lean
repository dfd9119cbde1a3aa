import Replan.Proofs.Number.Stored

set_option autoImplicit false

namespace Replan.Double

open Float.Model (UnpackedFloat Format)
open Float.Model.UnpackedFloat

theorem shifted_mantissa (em : ExtendedMantissa) (k : Nat) : (em >>> k).mantissa = em.mantissa / 2 ^ k := by
  induction k with
  | zero => exact (Nat.div_one _).symm
  | succ k ih =>
      show (em >>> k).mantissa / 2 = _
      rw [ih, Nat.div_div_eq_div_mul, Nat.pow_succ]

theorem shifted_round_bit (em : ExtendedMantissa) (k : Nat) :
    (em >>> (k + 1)).roundBit = (em.mantissa / 2 ^ k % 2 != 0) := by
  show ((em >>> k).mantissa % 2 != 0) = _
  rw [shifted_mantissa]

theorem rounded_at_most (em : ExtendedMantissa) :
    em.mantissa ≤ em.roundedMantissa ∧ em.roundedMantissa ≤ em.mantissa + 1 := by
  obtain ⟨m, r, s⟩ := em
  cases r <;> cases s <;> simp [ExtendedMantissa.roundedMantissa, ExtendedMantissa.accuracy, Accuracy.roundToNearestEven]
  omega

theorem rounded_down (em : ExtendedMantissa) (below : em.roundBit = false) : em.roundedMantissa = em.mantissa := by
  obtain ⟨m, r, s⟩ := em
  cases below
  cases s <;> rfl

theorem log2_scaled (m k : Nat) (pos : 0 < m) : (m * 2 ^ k).log2 = m.log2 + k := by
  induction k with
  | zero => rw [Nat.pow_zero, Nat.mul_one, Nat.add_zero]
  | succ k ih =>
      have more : m * 2 ^ k ≠ 0 := Nat.mul_ne_zero pos.ne' (Nat.two_pow_pos k).ne'
      rw [Nat.pow_succ, ← Nat.mul_assoc, Nat.mul_comm, Nat.log2_two_mul more, ih, Nat.add_assoc]

theorem target_exponent (m : Nat) (e : Int) :
    Format.binary64.targetExponent (Float.Model.totalExponent m e) = max (m.log2 + e - 52) (-1074) := by
  have bits : (Format.binary64.mantissaBits : Int) = 53 := rfl
  have least : Format.binary64.minExponent = -1074 := rfl
  rw [Format.targetExponent, Float.Model.totalExponent, bits, least]
  congr 1
  omega

theorem shift_nothing (m : Nat) (e : Int) (short : m < 2 ^ 53) (least : -1074 ≤ e) :
    shiftToTargetExponent Format.binary64 m e .exact = (⟨m, false, false⟩, e) := by
  have bits : m.log2 ≤ 52 := by
    by_cases zero : m = 0
    · subst zero
      exact Nat.zero_le 52
    · exact Nat.le_of_lt_succ ((Nat.log2_lt zero).mpr short)
  have amount : (max ((m.log2 : Int) + e - 52) (-1074) - e).toNat = 0 := by omega
  rw [shiftToTargetExponent, target_exponent, shiftToExponent, amount]
  exact congrArg _ (Int.add_zero e)

theorem shift_carry (e : Int) (least : -1074 ≤ e) :
    shiftToTargetExponent Format.binary64 (2 ^ 53) e .exact = (⟨2 ^ 52, false, false⟩, e + 1) := by
  have amount : (max (((2 ^ 53 : Nat).log2 : Int) + e - 52) (-1074) - e).toNat = 1 := by
    rw [Nat.log2_two_pow]
    omega
  rw [shiftToTargetExponent, target_exponent, shiftToExponent, amount]
  rfl

def size (m : Nat) (e : Int) : Nat := m * 2 ^ (e + 1074).toNat

theorem rounded_mantissa (s : Sign) (r : Nat) (t : Int) (pos : 0 < r) (short : r ≤ 2 ^ 53) (least : -1074 ≤ t)
    (full : 2 ^ 52 ≤ r ∨ t = -1074) :
    ∃ m e pos', Canonical m e ∧ size m e = r * 2 ^ (t + 1074).toNat ∧
      (let final := shiftToTargetExponent Format.binary64 r t .exact
        if h : final.1.mantissa = 0 then UnpackedFloat.zero s
        else .finite s final.1.mantissa final.2 (Nat.pos_of_ne_zero h)) = .finite s m e pos' := by
  rcases Nat.lt_or_eq_of_le short with short | rfl
  · refine ⟨r, t, pos, ⟨short, least, full⟩, rfl, ?_⟩
    simp only [shift_nothing r t short least]
    rw [dif_neg pos.ne']
  · refine ⟨2 ^ 52, t + 1, by decide, ⟨by decide, by omega, .inl (Nat.le_refl _)⟩, ?_, ?_⟩
    · have next : (t + 1 + 1074).toNat = (t + 1074).toNat + 1 := by omega
      have doubled : 2 ^ ((t + 1074).toNat + 1) = 2 * 2 ^ (t + 1074).toNat := Nat.pow_succ'
      have carry : 2 ^ 52 * 2 = 2 ^ 53 := rfl
      rw [size, next, doubled, ← Nat.mul_assoc, carry]
    · simp only [shift_carry t least]
      rw [dif_neg (by decide)]

section Alignment

variable (m : Nat) (e : Int)

def target : Int := max (m.log2 + e - 52) (-1074)

def zeros : Nat := (e - target m e).toNat

def shift : Nat := (target m e - (e - zeros m e)).toNat

def aligned : ExtendedMantissa := (⟨m * 2 ^ zeros m e, false, false⟩ : ExtendedMantissa) >>> shift m e

def unit : Nat := 2 ^ (target m e + 1074).toNat

variable (pos : 0 < m) (least : -1074 ≤ e)

include pos in
theorem shift_aligned :
    shiftToTargetExponent Format.binary64 (m * 2 ^ zeros m e) (e - zeros m e) .exact = (aligned m e, target m e) := by
  have same : max (((m * 2 ^ zeros m e).log2 : Int) + (e - zeros m e) - 52) (-1074) = target m e := by
    rw [log2_scaled m _ pos, zeros, target]
    omega
  have landed : e - zeros m e + shift m e = target m e := by
    rw [shift, zeros]
    omega
  rw [shiftToTargetExponent, target_exponent, same]
  exact congrArg (Prod.mk (aligned m e)) landed

include least in
theorem size_split : size m e = m * 2 ^ zeros m e * 2 ^ (e - zeros m e + 1074).toNat := by
  have exponent : (e + 1074).toNat = zeros m e + (e - zeros m e + 1074).toNat := by
    rw [zeros, target]
    omega
  rw [size, exponent, Nat.pow_add, Nat.mul_assoc]

include least in
theorem unit_split : unit m e = 2 ^ shift m e * 2 ^ (e - zeros m e + 1074).toNat := by
  rw [unit, ← Nat.pow_add, shift, zeros, target]
  congr 1
  omega

include least in
theorem aligned_mantissa : (aligned m e).mantissa = size m e / unit m e := by
  rw [aligned, shifted_mantissa, size_split m e least, unit_split m e least, Nat.mul_div_mul_right _ _ (Nat.two_pow_pos _)]

include pos in
theorem aligned_short : (aligned m e).mantissa < 2 ^ 53 := by
  have nonzero : 0 < m * 2 ^ zeros m e := Nat.mul_pos pos (Nat.two_pow_pos _)
  rw [aligned, shifted_mantissa, Nat.div_lt_iff_lt_mul (Nat.two_pow_pos _), ← Nat.pow_add, ← Nat.log2_lt nonzero.ne',
    log2_scaled m _ pos, shift, zeros, target]
  omega

include pos in
theorem aligned_full : 2 ^ 52 ≤ (aligned m e).mantissa ∨ target m e = -1074 := by
  have nonzero : 0 < m * 2 ^ zeros m e := Nat.mul_pos pos (Nat.two_pow_pos _)
  by_cases lowest : target m e = -1074
  · exact .inr lowest
  · left
    rw [aligned, shifted_mantissa, Nat.le_div_iff_mul_le (Nat.two_pow_pos _), ← Nat.pow_add, ← Nat.le_log2 nonzero.ne',
      log2_scaled m _ pos, shift, zeros]
    rw [target] at lowest ⊢
    omega

include pos least in
theorem aligned_positive : 0 < (aligned m e).mantissa := by
  rcases aligned_full m e pos with full | lowest
  · exact (Nat.two_pow_pos 52).trans_le full
  · have none : shift m e = 0 := by
      rw [shift, zeros, lowest]
      omega
    rw [aligned, none, shifted_mantissa]
    exact Nat.div_pos (Nat.mul_pos pos (Nat.two_pow_pos _)) Nat.one_pos

include least in
theorem aligned_below (low : 2 * (size m e % unit m e) < unit m e) : (aligned m e).roundBit = false := by
  rw [size_split m e least, unit_split m e least, Nat.mul_mod_mul_right, ← Nat.mul_assoc,
    Nat.mul_lt_mul_right (Nat.two_pow_pos _)] at low
  rw [aligned]
  cases bits : shift m e with
  | zero => rfl
  | succ k =>
      rw [bits] at low
      have doubled : 2 ^ (k + 1) = 2 * 2 ^ k := Nat.pow_succ'
      have rest : m * 2 ^ zeros m e % 2 ^ (k + 1) < 2 ^ k := by omega
      have even : m * 2 ^ zeros m e / 2 ^ k % 2 = 0 := by
        rw [← Nat.mod_mul_right_div_self, ← Nat.pow_succ]
        exact Nat.div_eq_of_lt rest
      rw [shifted_round_bit, even]
      rfl

end Alignment

theorem round_positive (s : Sign) (m : Nat) (e : Int) (pos : 0 < m) (least : -1074 ≤ e) :
    ∃ m' e' pos' r, UnpackedFloat.round Format.binary64 s m e = .finite s m' e' pos' ∧ Canonical m' e' ∧
      size m' e' = r * unit m e ∧ r ≤ size m e / unit m e + 1 ∧
      (2 * (size m e % unit m e) < unit m e → r = size m e / unit m e) := by
  have mantissa := aligned_mantissa m e least
  obtain ⟨atLeast, atMost⟩ := rounded_at_most (aligned m e)
  obtain ⟨m', e', pos', canonical, sized, final⟩ := rounded_mantissa s (aligned m e).roundedMantissa (target m e)
    ((aligned_positive m e pos least).trans_le atLeast) (atMost.trans (aligned_short m e pos)) (Int.le_max_right _ _)
    ((aligned_full m e pos).imp_left fun enough => enough.trans atLeast)
  refine ⟨m', e', pos', (aligned m e).roundedMantissa, ?_, canonical, sized, ?_, ?_⟩
  · rw [← final, UnpackedFloat.round, target_exponent]
    show roundWithAccuracy Format.binary64 s (m <<< zeros m e) (e - zeros m e) .exact = _
    rw [Nat.shiftLeft_eq, roundWithAccuracy, shift_aligned m e pos]
  · rw [← mantissa]
    exact atMost
  · intro low
    rw [← mantissa]
    exact rounded_down _ (aligned_below m e least low)

theorem round_bounded (s : Sign) (m : Nat) (e : Int) (pos : 0 < m) (least : -1074 ≤ e) (b : Nat) (large : 54 ≤ b)
    (bounded : size m e ≤ 2 ^ b + 2 ^ (b - 54)) :
    ∃ m' e' pos', UnpackedFloat.round Format.binary64 s m e = .finite s m' e' pos' ∧ Canonical m' e' ∧
      size m' e' ≤ 2 ^ b := by
  obtain ⟨m', e', pos', r, rounded, canonical, sized, atMost, low⟩ := round_positive s m e pos least
  refine ⟨m', e', pos', rounded, canonical, ?_⟩
  rw [sized]
  have sizePos : 0 < size m e := Nat.mul_pos pos (Nat.two_pow_pos _)
  have bits : (size m e).log2 = m.log2 + (e + 1074).toNat := log2_scaled m _ pos
  by_cases below : size m e < 2 ^ b
  · have fewBits : m.log2 + (e + 1074).toNat < b := by
      rw [← bits, Nat.log2_lt sizePos.ne']
      exact below
    -- The unit divides the power of two, so there is room for one more unit.
    have smaller : (target m e + 1074).toNat ≤ b := by
      rw [target]
      omega
    rw [unit] at atMost ⊢
    generalize (target m e + 1074).toNat = k at *
    have split : 2 ^ b = 2 ^ (b - k) * 2 ^ k := by rw [← Nat.pow_add, Nat.sub_add_cancel smaller]
    have room : size m e / 2 ^ k < 2 ^ (b - k) := by
      rw [Nat.div_lt_iff_lt_mul (Nat.two_pow_pos k), ← split]
      exact below
    rw [split]
    exact Nat.mul_le_mul_right _ (atMost.trans room)
  · have reached := Nat.le_of_not_lt below
    have quarter : 2 ^ (b - 52) = 2 ^ (b - 54) * 4 := by
      have apart : b - 52 = b - 54 + 2 := by omega
      rw [apart, Nat.pow_add]
    have whole : 2 ^ 52 * 2 ^ (b - 52) = 2 ^ b := by
      rw [← Nat.pow_add, Nat.add_sub_of_le (by omega)]
    have unitPos := Nat.two_pow_pos (b - 52)
    have allBits : m.log2 + (e + 1074).toNat = b := by
      rw [← bits, Nat.log2_eq_iff sizePos.ne', Nat.pow_succ]
      exact ⟨reached, by omega⟩
    have exact : unit m e = 2 ^ (b - 52) := by
      rw [unit, target]
      congr 1
      omega
    obtain ⟨rest, split⟩ := Nat.exists_eq_add_of_le reached
    have little : rest < 2 ^ (b - 52) := by omega
    have kept : (2 ^ 52 * 2 ^ (b - 52) + rest) / 2 ^ (b - 52) = 2 ^ 52 := by
      rw [Nat.mul_comm, Nat.mul_add_div unitPos, Nat.div_eq_of_lt little, Nat.add_zero]
    rw [exact, split, ← whole, Nat.mul_add_mod_of_lt little, kept] at low
    rw [exact, low (by omega), whole]

theorem rounded_finite (s : Sign) (m : Nat) (e : Int) (a : Accuracy) :
    (roundWithAccuracy Format.binary64 s m e a).isFinite = true := by
  unfold roundWithAccuracy
  dsimp only
  split <;> rfl

theorem normalized_finite (m : Int) (e : Int) (s : Sign) :
    (UnpackedFloat.normalize Format.binary64 m e s).isFinite = true := by
  unfold UnpackedFloat.normalize
  split
  · exact rounded_finite _ _ _ _
  · rfl
  · exact rounded_finite _ _ _ _

theorem finite_number (u : UnpackedFloat) (finite : u.isFinite = true) : u ≠ .notANumber := by
  rintro rfl
  cases finite

theorem add_finite (u v : UnpackedFloat) (number : u ≠ .notANumber) (finite : v.isFinite = true) :
    stored (UnpackedFloat.add Format.binary64 u v) ≠ .notANumber := by
  refine stored_number _ ?_
  cases v with
  | infinity t => cases finite
  | notANumber => cases finite
  | zero t =>
      cases u with
      | notANumber => exact absurd rfl number
      | zero s => cases s <;> cases t <;> nofun
      | _ => nofun
  | finite t n f =>
      cases u with
      | notANumber => exact absurd rfl number
      | finite s m e => exact finite_number _ (normalized_finite _ _ _)
      | _ => nofun

def AtMostZero : UnpackedFloat → Prop
  | .notANumber => False
  | .zero _ => True
  | .infinity s => s = .negative
  | .finite s _ _ _ => s = .negative

theorem stored_at_most_zero (u : UnpackedFloat) (atMost : AtMostZero u) : AtMostZero (stored u) := by
  cases u with
  | notANumber => cases atMost
  | infinity s => rwa [stored_infinity]
  | zero s => rwa [stored_zero]
  | finite s m e pos =>
      obtain inf | zero | ⟨_, _, _, fin⟩ := stored_finite s m e pos
      · rwa [inf]
      · rw [zero]; trivial
      · rwa [fin]

theorem round_at_most_zero (m : Nat) (e : Int) : AtMostZero (UnpackedFloat.round Format.binary64 .negative m e) := by
  unfold UnpackedFloat.round roundWithAccuracy
  dsimp only
  split
  · trivial
  · rfl

theorem add_negative (m n : Nat) (e f : Int) (pos : 0 < m) (pos' : 0 < n) :
    UnpackedFloat.add Format.binary64 (.finite .negative m e pos) (.finite .negative n f pos') =
      UnpackedFloat.round Format.binary64 .negative
        (m * 2 ^ (e - min e f).toNat + n * 2 ^ (f - min e f).toNat) (min e f) := by
  have opened : UnpackedFloat.add Format.binary64 (.finite .negative m e pos) (.finite .negative n f pos') =
      UnpackedFloat.normalize Format.binary64
        (-((m <<< (e - min e f).toNat : Nat) : Int) + -((n <<< (f - min e f).toNat : Nat) : Int)) (min e f) .positive := rfl
  rw [opened, Nat.shiftLeft_eq, Nat.shiftLeft_eq]
  have some : 0 < m * 2 ^ (e - min e f).toNat := Nat.mul_pos pos (Nat.two_pow_pos _)
  generalize m * 2 ^ (e - min e f).toNat = a at *
  generalize n * 2 ^ (f - min e f).toNat = b at *
  have below : compare (-(a : Int) + -(b : Int)) 0 = .lt := Int.compare_eq_lt.mpr (by omega)
  have negated : (-(-(a : Int) + -(b : Int))).toNat = a + b := by omega
  rw [UnpackedFloat.normalize, below, negated]

theorem add_at_most_zero (u v : UnpackedFloat) (first : AtMostZero u) (second : AtMostZero v) :
    AtMostZero (stored (UnpackedFloat.add Format.binary64 u v)) := by
  refine stored_at_most_zero _ ?_
  cases u with
  | notANumber => cases first
  | infinity s =>
      cases first
      cases v with
      | notANumber => cases second
      | infinity t => cases second; rfl
      | _ => rfl
  | zero s =>
      cases v with
      | notANumber => cases second
      | zero t => cases s <;> cases t <;> trivial
      | infinity t => exact second
      | finite t n f => exact second
  | finite s m e =>
      cases first
      cases v with
      | notANumber => cases second
      | zero t => rfl
      | infinity t => exact second
      | finite t n f =>
          cases second
          rw [add_negative]
          exact round_at_most_zero _ _

def Slight (b : Nat) : UnpackedFloat → Prop
  | .zero _ => True
  | .finite s m e _ => s = .negative ∧ Canonical m e ∧ size m e ≤ 2 ^ b
  | _ => False

theorem size_aligned (m : Nat) (e f : Int) (lower : f ≤ e) (least : -1074 ≤ f) :
    size (m * 2 ^ (e - f).toNat) f = size m e := by
  have apart : (e + 1074).toNat = (e - f).toNat + (f + 1074).toNat := by omega
  rw [size, size, apart, Nat.pow_add, Nat.mul_assoc]

theorem slight_stored (s : Sign) (m : Nat) (e : Int) (pos : 0 < m) (canonical : Canonical m e) (b : Nat)
    (bounded : size m e ≤ 2 ^ b) (fits : b ≤ 2000) : stored (.finite s m e pos) = .finite s m e pos := by
  have power : 2 ^ (e + 1074).toNat ≤ 2 ^ b := (Nat.le_mul_of_pos_left _ pos).trans bounded
  have exponent := (Nat.pow_le_pow_iff_right (Nat.lt_succ_self 1)).mp power
  exact stored_canonical s m e pos canonical (by omega)

theorem add_slight (b : Nat) (large : 54 ≤ b) (fits : b ≤ 2000) (u v : UnpackedFloat) (first : Slight b u)
    (second : Slight (b - 54) v) : Slight b (stored (UnpackedFloat.add Format.binary64 u v)) := by
  have less : 2 ^ (b - 54) ≤ 2 ^ b := Nat.pow_le_pow_right (by decide) (Nat.sub_le b 54)
  cases u with
  | notANumber => cases first
  | infinity s => cases first
  | zero s =>
      cases v with
      | notANumber => cases second
      | infinity t => cases second
      | zero t => cases s <;> cases t <;> trivial
      | finite t n f pos =>
          obtain ⟨negative, canonical, bounded⟩ := second
          show Slight b (stored (.finite t n f pos))
          rw [slight_stored t n f pos canonical b (bounded.trans less) fits]
          exact ⟨negative, canonical, bounded.trans less⟩
  | finite s m e pos =>
      obtain ⟨negative, canonical, bounded⟩ := first
      cases v with
      | notANumber => cases second
      | infinity t => cases second
      | zero t =>
          show Slight b (stored (.finite s m e pos))
          rw [slight_stored s m e pos canonical b bounded fits]
          exact ⟨negative, canonical, bounded⟩
      | finite t n f pos' =>
          obtain ⟨negative', canonical', bounded'⟩ := second
          cases negative
          cases negative'
          have lowest : -1074 ≤ min e f := Int.le_min.mpr ⟨canonical.least, canonical'.least⟩
          have together :
              size (m * 2 ^ (e - min e f).toNat + n * 2 ^ (f - min e f).toNat) (min e f) ≤ 2 ^ b + 2 ^ (b - 54) := by
            have sum : size (m * 2 ^ (e - min e f).toNat + n * 2 ^ (f - min e f).toNat) (min e f) = size m e + size n f := by
              rw [← size_aligned m e _ (Int.min_le_left e f) lowest, ← size_aligned n f _ (Int.min_le_right e f) lowest]
              exact Nat.add_mul _ _ _
            rw [sum]
            exact Nat.add_le_add bounded bounded'
          have some : 0 < m * 2 ^ (e - min e f).toNat := Nat.mul_pos pos (Nat.two_pow_pos _)
          obtain ⟨m', e', pos', rounded, canonical, bounded⟩ := round_bounded .negative _ _
            (Nat.add_pos_left some _) lowest b large together
          rw [add_negative, rounded, slight_stored _ m' e' pos' canonical b bounded fits]
          exact ⟨rfl, canonical, bounded⟩

end Replan.Double
