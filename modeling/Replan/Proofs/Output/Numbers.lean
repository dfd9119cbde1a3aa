import Replan.Proofs.Output.Line
import Replan.Proofs.Source.ReadNames

set_option autoImplicit false

namespace Replan.Output

def Visible (c : Char) : Prop := Source.isNameChar c = true ∨ c = '.' ∨ c = '+'

instance : DecidablePred Visible := fun c => inferInstanceAs (Decidable (Source.isNameChar c = true ∨ c = '.' ∨ c = '+'))

theorem visible_unless (mark c : Char) (hidden : ¬Visible mark) (visible : Visible c) : c ≠ mark :=
  fun same => hidden (same ▸ visible)

theorem visible_line (c : Char) (visible : Visible c) : c ≠ '\n' ∧ c ≠ '\r' :=
  ⟨visible_unless '\n' c (by decide) visible, visible_unless '\r' c (by decide) visible⟩

theorem visible_stops (c : Char) (visible : Visible c) : c ≠ ' ' ∧ c ≠ '\t' :=
  ⟨visible_unless ' ' c (by decide) visible, visible_unless '\t' c (by decide) visible⟩

theorem visible_not_white (c : Char) (visible : Visible c) : isWhite c = false := by
  have code : c.toNat = 43 ∨ 45 ≤ c.toNat ∧ c.toNat ≤ 122 := by
    rcases visible with letter | rfl | rfl
    · simp only [Source.isNameChar, Char.isAlphanum, Char.isAlpha, Char.isUpper, Char.isLower, Char.isDigit,
        Bool.or_eq_true, Bool.and_eq_true, decide_eq_true_eq, beq_iff_eq, UInt32.le_iff_toNat_le] at letter
      rcases letter with (alphanumeric | rfl) | rfl
      · simp at alphanumeric
        omega
      · decide
      · decide
    · decide
    · decide
  simp only [isWhite, Bool.or_eq_false_iff, Bool.and_eq_false_iff, decide_eq_false_iff_not, beq_eq_false_iff_ne]
  omega

theorem digit_visible (c : Char) (digit : c.isDigit = true) : Visible c :=
  .inl (by rw [Source.isNameChar, Char.isAlphanum, digit, Bool.or_true, Bool.true_or, Bool.true_or])

theorem digits_visible (cs : List Char) : ∀ c ∈ cs.takeWhile Char.isDigit, Visible c := fun c member =>
  digit_visible c (List.all_eq_true.mp List.all_takeWhile c member)

theorem signed_split (cs : List Char) : cs = (signed cs).1 ++ (signed cs).2 ∧ ∀ c ∈ (signed cs).1, Visible c := by
  fun_cases signed cs
  · exact ⟨rfl, List.forall_mem_singleton.mpr (by decide)⟩
  · exact ⟨rfl, List.forall_mem_singleton.mpr (by decide)⟩
  · exact ⟨rfl, nofun⟩

theorem mantissa_split (cs digits rest : List Char) (read : mantissa? cs = some (digits, rest)) :
    cs = digits ++ rest ∧ digits ≠ [] ∧ ∀ c ∈ digits, Visible c := by
  have parts := List.takeWhile_append_dropWhile (p := Char.isDigit) (l := cs)
  have whole := digits_visible cs
  rw [mantissa?] at read
  generalize cs.takeWhile Char.isDigit = before at read parts whole
  generalize cs.dropWhile Char.isDigit = after at read parts
  subst parts
  have fraction (tail : List Char) : ∀ c ∈ '.' :: tail.takeWhile Char.isDigit, Visible c :=
    List.forall_mem_cons.mpr ⟨by decide, digits_visible tail⟩
  have joined (tail : List Char) : '.' :: tail = '.' :: tail.takeWhile Char.isDigit ++ tail.dropWhile Char.isDigit :=
    congrArg ('.' :: ·) List.takeWhile_append_dropWhile.symm
  dsimp only at read
  split at read
  · split at read
    · cases read
    · cases read
      exact ⟨joined _, List.cons_ne_nil _ _, fraction _⟩
  · cases read
  · cases read
    refine ⟨?_, by simp, List.forall_mem_append.mpr ⟨whole, fraction _⟩⟩
    rw [List.append_assoc]
    exact congrArg (before ++ ·) (joined _)
  · cases read
    exact ⟨rfl, ‹_›, whole⟩

theorem exponent_split (cs exponent rest : List Char) (read : exponent? cs = some (exponent, rest)) :
    cs = exponent ++ rest ∧ ∀ c ∈ exponent, Visible c := by
  cases cs with
  | nil =>
      cases read
      exact ⟨rfl, nofun⟩
  | cons c cs =>
      obtain ⟨parts, sign⟩ := signed_split cs
      rw [exponent?] at read
      by_cases letter : c = 'e' ∨ c = 'E'
      · rw [if_pos letter] at read
        dsimp only at read
        split at read
        · cases read
        · cases read
          have mark : Visible c := by rcases letter with rfl | rfl <;> decide
          have split : cs =
              (signed cs).1 ++ (signed cs).2.takeWhile Char.isDigit ++ (signed cs).2.dropWhile Char.isDigit := by
            rw [List.append_assoc, List.takeWhile_append_dropWhile]
            exact parts
          refine ⟨?_, List.forall_mem_cons.mpr ⟨mark, List.forall_mem_append.mpr ⟨sign, digits_visible _⟩⟩⟩
          exact congrArg (c :: ·) split
      · rw [if_neg letter] at read
        cases read
        exact ⟨rfl, nofun⟩

theorem numeral_split (cs digits rest : List Char) (read : numeral? cs = some (digits, rest)) :
    cs = digits ++ rest ∧ digits ≠ [] ∧ ∀ c ∈ digits, Visible c := by
  obtain ⟨parts, sign⟩ := signed_split cs
  rw [numeral?] at read
  dsimp only at read
  split at read
  · cases read
  · rename_i mantissa afterMantissa found
    obtain ⟨⟨exponent, last⟩, known, same⟩ := Option.map_eq_some_iff.mp read
    cases same
    obtain ⟨whole, nonempty, shown⟩ := mantissa_split _ _ _ found
    obtain ⟨power, shownToo⟩ := exponent_split _ _ _ known
    refine ⟨?_, by simp [nonempty], List.forall_mem_append.mpr ⟨List.forall_mem_append.mpr ⟨sign, shown⟩, shownToo⟩⟩
    rw [List.append_assoc, List.append_assoc, ← power, ← whole]
    exact parts

def Denotes (t : List Char) (x : Float) : Prop := number? t = some (x, [])

theorem word_float (w : List Char) (word : w.map Char.toLower = ['n', 'a', 'n'] ∨ w.map Char.toLower = ['i', 'n', 'f']) :
    (Numeral.float? (String.ofList w)).isSome = true := by
  have unsigned : (Numeral.unsigned? w).isSome = true := by
    rw [Numeral.unsigned?]
    rcases word with nan | inf
    · simp [nan]
    · simp [inf]
  rw [Numeral.float?, String.toList_ofList]
  split
  · simp [Char.toLower] at word
  · simp [Char.toLower] at word
  · exact unsigned

theorem word_text (mark t : List Char) (letters : ∀ m ∈ mark, Source.isNameChar m = true)
    (read : Text.stripAnyCase? mark t = some []) : t.map Char.toLower = mark ∧ ∀ c ∈ t, Visible c := by
  obtain ⟨w, rfl, rfl⟩ := Source.stripped_letters mark t [] read
  rw [List.append_nil]
  refine ⟨rfl, fun c member => .inl ?_⟩
  rw [← Source.name_char_lower]
  exact letters _ (List.mem_map_of_mem member)

theorem denotes_text (t : List Char) (x : Float) (denotes : Denotes t x) :
    t ≠ [] ∧ (∀ c ∈ t, Visible c) ∧ (Numeral.float? (String.ofList t)).isSome = true := by
  rw [Denotes, number?] at denotes
  by_cases begins : beginsNumeral t = true
  · rw [if_pos begins] at denotes
    cases read : numeral? t with
    | none =>
        rw [read] at denotes
        cases denotes
    | some parts =>
        obtain ⟨digits, rest⟩ := parts
        rw [read] at denotes
        obtain ⟨y, value, same⟩ := Option.map_eq_some_iff.mp denotes
        cases same
        obtain ⟨rfl, nonempty, visible⟩ := numeral_split t digits [] read
        rw [List.append_nil]
        exact ⟨nonempty, visible, by rw [value]; rfl⟩
  · rw [if_neg begins] at denotes
    have word : (t.map Char.toLower = ['n', 'a', 'n'] ∨ t.map Char.toLower = ['i', 'n', 'f']) ∧ ∀ c ∈ t, Visible c := by
      cases nan : Text.stripAnyCase? ['n', 'a', 'n'] t with
      | some rest =>
          rw [nan] at denotes
          cases denotes
          obtain ⟨lower, visible⟩ := word_text _ t (by simp [Source.isNameChar]) nan
          exact ⟨.inl lower, visible⟩
      | none =>
          rw [nan] at denotes
          obtain ⟨rest, inf, same⟩ := Option.map_eq_some_iff.mp denotes
          cases same
          obtain ⟨lower, visible⟩ := word_text _ t (by simp [Source.isNameChar]) inf
          exact ⟨.inr lower, visible⟩
    obtain ⟨lower, visible⟩ := word
    refine ⟨fun empty => ?_, visible, word_float t lower⟩
    rw [empty] at lower
    simp at lower

end Replan.Output
