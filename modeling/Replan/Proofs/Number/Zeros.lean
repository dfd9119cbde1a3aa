import Replan.Proofs.Source.Numerals

set_option autoImplicit false

namespace Replan.Number

open Float.Model (UnpackedFloat)

theorem float_is_zero (x : Float) : isZero x = true ↔ ∃ sign, x.toModel.unpack = UnpackedFloat.zero sign := by
  have zero : (Number.zero : Float).toModel.unpack = .zero .positive := by rfl
  have meaning : isZero x = (x.toModel.unpack.compare (Number.zero : Float).toModel.unpack == some Ordering.eq) := rfl
  rw [meaning, zero]
  cases x.toModel.unpack with
  | zero sign => exact iff_of_true rfl ⟨sign, rfl⟩
  | infinity sign =>
      refine iff_of_false (fun equal => ?_) fun ⟨_, zero⟩ => by cases zero
      cases sign <;> cases equal
  | notANumber => exact iff_of_false (fun equal => by cases equal) fun ⟨_, zero⟩ => by cases zero
  | finite sign m e pos =>
      refine iff_of_false (fun equal => ?_) fun ⟨_, zero⟩ => by cases zero
      cases sign <;> cases equal

theorem compare_zeros_left (u : UnpackedFloat) (s s' : UnpackedFloat.Sign) :
    (UnpackedFloat.zero s).compare u = (UnpackedFloat.zero s').compare u := by
  cases u with
  | finite sign m e pos => cases sign <;> rfl
  | infinity sign => cases sign <;> rfl
  | _ => rfl

theorem compare_zeros_right (u : UnpackedFloat) (s s' : UnpackedFloat.Sign) :
    u.compare (.zero s) = u.compare (.zero s') := by
  cases u with
  | finite sign m e pos => cases sign <;> rfl
  | infinity sign => cases sign <;> rfl
  | _ => rfl

theorem alike_unpacked (x y : Float) (alike : Alike x y) :
    x.toModel.unpack = y.toModel.unpack ∨
      ∃ s s', x.toModel.unpack = UnpackedFloat.zero s ∧ y.toModel.unpack = UnpackedFloat.zero s' := by
  rcases alike with rfl | ⟨zero, zero'⟩
  · exact .inl rfl
  · obtain ⟨s, here⟩ := (float_is_zero x).mp zero
    obtain ⟨s', there⟩ := (float_is_zero y).mp zero'
    exact .inr ⟨s, s', here, there⟩

theorem compare_alike (x x' y y' : Float) (first : Alike x x') (second : Alike y y') :
    x.toModel.unpack.compare y.toModel.unpack = x'.toModel.unpack.compare y'.toModel.unpack := by
  have left : x.toModel.unpack.compare y.toModel.unpack = x'.toModel.unpack.compare y.toModel.unpack := by
    rcases alike_unpacked x x' first with same | ⟨s, s', here, there⟩
    · rw [same]
    · rw [here, there, compare_zeros_left _ s s']
  rw [left]
  rcases alike_unpacked y y' second with same | ⟨s, s', here, there⟩
  · rw [same]
  · rw [here, there, compare_zeros_right _ s s']

def repack (u : UnpackedFloat) : Float := .ofModel (.pack u)

theorem repacked_zero (s : UnpackedFloat.Sign) : isZero (repack (.zero s)) = true := by
  cases s <;> rfl

theorem zero_sum (spec : Float.Model.Format) (s t : UnpackedFloat.Sign) :
    ∃ r, UnpackedFloat.add spec (.zero s) (.zero t) = .zero r := by
  cases s <;> cases t <;> exact ⟨_, rfl⟩

theorem zero_sums_alike (spec : Float.Model.Format) (s s' t t' : UnpackedFloat.Sign) :
    Alike (repack (UnpackedFloat.add spec (.zero s) (.zero t))) (repack (UnpackedFloat.add spec (.zero s') (.zero t'))) := by
  obtain ⟨r, first⟩ := zero_sum spec s t
  obtain ⟨r', second⟩ := zero_sum spec s' t'
  rw [first, second]
  exact .inr ⟨repacked_zero r, repacked_zero r'⟩

theorem add_alike (x x' y y' : Float) (first : Alike x x') (second : Alike y y') : Alike (x + y) (x' + y') := by
  show Alike (repack (UnpackedFloat.add _ x.toModel.unpack y.toModel.unpack))
    (repack (UnpackedFloat.add _ x'.toModel.unpack y'.toModel.unpack))
  rcases alike_unpacked x x' first with same | ⟨s, s', here, there⟩
  · rw [same]
    rcases alike_unpacked y y' second with equal | ⟨s, s', here, there⟩
    · rw [equal]
      exact .inl rfl
    · rw [here, there]
      cases x'.toModel.unpack with
      | zero sign => exact zero_sums_alike _ sign sign s s'
      | _ => exact .inl rfl
  · rw [here, there]
    rcases alike_unpacked y y' second with equal | ⟨t, t', first, second⟩
    · rw [equal]
      cases y'.toModel.unpack with
      | zero sign => exact zero_sums_alike _ s s' sign sign
      | _ => exact .inl rfl
    · rw [first, second]
      exact zero_sums_alike _ s s' t t'

theorem float_lt (x y : Float) :
    Number.lt x y = (x.toModel.unpack.compare y.toModel.unpack == some Ordering.lt) := by
  rw [Bool.eq_iff_iff]
  show decide (x < y) = true ↔ _
  rw [decide_eq_true_iff]
  show decide (x.toModel < y.toModel) = true ↔ _
  rw [decide_eq_true_iff]
  rfl

theorem float_le (x y : Float) :
    Number.le x y = (x.toModel.unpack.compare y.toModel.unpack).any Ordering.isLE := by
  rw [Bool.eq_iff_iff]
  show decide (x ≤ y) = true ↔ _
  rw [decide_eq_true_iff]
  show decide (x.toModel ≤ y.toModel) = true ↔ _
  rw [decide_eq_true_iff]
  rfl

instance : ZerosAlike Float where
  zero := by rfl
  add := add_alike
  lt x y y' alike := by rw [float_lt, float_lt, compare_alike x x y y' (.inl rfl) alike]
  le x x' y y' first second := by rw [float_le, float_le, compare_alike x x' y y' first second]

end Replan.Number
