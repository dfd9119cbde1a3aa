import Mathlib.Data.List.Basic
import Std.Data.String.ToNat

set_option autoImplicit false

namespace Replan.Names

theorem digits_of_number (n : Nat) : ∀ c ∈ (toString n).toList, c.isDigit = true := by
  intro c member
  rw [Nat.toString_eq_repr, Nat.toList_repr] at member
  exact Nat.isDigit_of_mem_toDigits (by decide) (by decide) member

theorem number_nonempty (n : Nat) : (toString n).toList ≠ [] := by
  rw [Nat.toString_eq_repr, Nat.toList_repr]
  exact Nat.toDigits_ne_nil

theorem numbered_injective (xs ys : List Char) (c d : Char) (i j : Nat) (first : c.isDigit = false)
    (second : d.isDigit = false) (same : xs ++ c :: (toString i).toList = ys ++ d :: (toString j).toList) :
    xs = ys ∧ c = d ∧ i = j := by
  -- Read from the back, both names begin with their digits.
  have backwards (zs : List Char) (mark : Char) (n : Nat) (marked : mark.isDigit = false) :
      (zs ++ mark :: (toString n).toList).reverse.takeWhile Char.isDigit = (toString n).toList.reverse := by
    rw [List.reverse_append, List.reverse_cons, List.append_assoc]
    rw [List.takeWhile_append_of_pos (by simpa using digits_of_number n)]
    simp [marked]
  have numbers : (toString i).toList = (toString j).toList := by
    have digits := backwards xs c i first
    rw [same, backwards ys d j second] at digits
    exact (List.reverse_injective digits).symm
  have heads : xs ++ [c] = ys ++ [d] := by
    rw [numbers] at same
    refine (List.append_left_inj (toString j).toList).mp ?_
    simpa using same
  obtain ⟨stems, marks⟩ := List.append_inj' heads rfl
  refine ⟨stems, by simpa using marks, ?_⟩
  rw [String.toList_inj, Nat.toString_eq_repr, Nat.toString_eq_repr] at numbers
  exact Nat.repr_injective numbers

theorem last_digit (xs : List Char) (n : Nat) :
    ∃ c, (xs ++ (toString n).toList).getLast? = some c ∧ c.isDigit = true := by
  have nonempty := number_nonempty n
  refine ⟨(toString n).toList.getLast nonempty, ?_, digits_of_number n _ (List.getLast_mem nonempty)⟩
  rw [List.getLast?_append_of_ne_nil _ nonempty, List.getLast?_eq_some_getLast]

def reserved (name : String) : Bool :=
  "hs-".toList.isPrefixOf name.toList || "?hs-".toList.isPrefixOf name.toList

end Replan.Names
