import Mathlib
import Replan.Proofs.Source.Lexemes
import Replan.Proofs.Source.Yielding

set_option autoImplicit false

namespace Replan.Source

open Replan.Source.Parser

variable {R α β : Type} {G : RequirementSet}

theorem upper_no_digit (c : Char) (upper : c.isUpper = true) : c.isDigit = false := by
  simp only [Char.isUpper, Char.isDigit, UInt32.le_iff_toNat_le] at upper ⊢
  simp at upper ⊢
  omega

theorem digit_lower (c : Char) : c.toLower.isDigit = c.isDigit := by
  by_cases upper : c.isUpper = true
  · have lower : c.toLower.isLower = true := by rw [Char.isLower_toLower_eq_isAlpha, Char.isAlpha, upper, Bool.true_or]
    rw [upper_no_digit c upper]
    simp only [Char.isLower, Char.isDigit, UInt32.le_iff_toNat_le] at lower ⊢
    simp at lower ⊢
    omega
  · rw [Char.toLower_eq_of_not_isUpper upper]

theorem letter_lower (c : Char) : c.toLower.isAlphanum = c.isAlphanum := by
  rw [Char.isAlphanum, Char.isAlphanum, Char.isAlpha_toLower_eq_isAlpha, digit_lower]

theorem no_letter_lower (c : Char) (noLetter : c.isAlpha = false) : c.toLower = c := by
  refine Char.toLower_eq_of_not_isUpper fun upper => ?_
  rw [Char.isAlpha, upper, Bool.true_or] at noLetter
  cases noLetter

theorem mark_lower (c mark : Char) (noLetter : mark.isAlpha = false) : c.toLower = mark ↔ c = mark := by
  constructor
  · intro same
    have noLetterToo : c.isAlpha = false := by rw [← Char.isAlpha_toLower_eq_isAlpha, same, noLetter]
    rwa [no_letter_lower c noLetterToo] at same
  · rintro rfl
    exact no_letter_lower c noLetter

theorem name_start_lower (c : Char) : isNameStart c.toLower = isNameStart c := by
  refine Bool.eq_iff_iff.mpr ?_
  simp only [isNameStart, Bool.or_eq_true, beq_iff_eq, letter_lower, mark_lower c '_' (by decide)]

theorem name_char_lower (c : Char) : isNameChar c.toLower = isNameChar c := by
  refine Bool.eq_iff_iff.mpr ?_
  simp only [isNameChar, Bool.or_eq_true, beq_iff_eq, letter_lower, mark_lower c '_' (by decide),
    mark_lower c '-' (by decide)]

theorem lowered_name (first : Char) (more : List Char) (start : isNameStart first = true)
    (letters : ∀ c ∈ more, isNameChar c = true) : IsName (lowered (first :: more)) := by
  rw [IsName, lowered, String.toList_ofList]
  constructor
  · exact (name_start_lower first).trans start
  · intro c member
    obtain ⟨d, listed, rfl⟩ := List.mem_map.mp member
    refine ⟨(name_char_lower d).trans ?_, Char.toLower_toLower_eq_toLower d⟩
    rcases List.mem_cons.mp listed with rfl | later
    · exact name_start_char d start
    · exact letters d later

structure Named (text : List Char) (n : String) (rest : List Char) : Prop where
  spelled : ∃ first more, text = first :: (more ++ rest) ∧ isNameStart first = true ∧
    (∀ c ∈ more, isNameChar c = true) ∧ n = lowered (first :: more)
  stops : ∀ c ∈ rest.head?, isNameChar c = false

theorem name_done (c next : Cursor) (entry : Span × String) (done : (name : Parser R _) c = .done entry next) :
    ∃ rest, Named c.rest entry.2 rest ∧ next.place = ⟨skip rest, c.requirements⟩ := by
  cases text : c.rest with
  | nil =>
      refine absurd done (misses_not_done c next entry ?_)
      rw [Cursor.place, text]
      exact name_misses [] (by simp)
  | cons first others =>
      by_cases start : isNameStart first = true
      · have split : others = others.takeWhile isNameChar ++ others.dropWhile isNameChar :=
          (List.takeWhile_append_dropWhile).symm
        have letters : ∀ d ∈ others.takeWhile isNameChar, isNameChar d = true := fun d => List.mem_takeWhile_imp
        have stops : ∀ d ∈ (others.dropWhile isNameChar).head?, isNameChar d = false := by
          intro d first
          have refused := List.head?_dropWhile_not isNameChar others
          rw [first] at refused
          simpa using refused
        have reads := letters_read (R := R) (G := c.requirements) first _ _ start letters stops
        rw [← split] at reads
        have here : c.place = ⟨first :: others, c.requirements⟩ := by rw [Cursor.place, text]
        rw [← here] at reads
        obtain ⟨spelled, reached⟩ := reads_done c next entry reads done
        exact ⟨_, ⟨⟨first, _, by rw [← split], start, letters, spelled⟩, stops⟩, reached⟩
      · refine absurd done (misses_not_done c next entry ?_)
        rw [Cursor.place, text]
        refine name_misses _ fun d same => ?_
        cases same
        simpa using start

theorem named_is_name (text rest : List Char) (n : String) (named : Named text n rest) : IsName n := by
  obtain ⟨⟨first, more, -, start, letters, rfl⟩, -⟩ := named
  exact lowered_name first more start letters

theorem strip_lowered (cs rest : List Char) : Text.stripAnyCase? (cs.map Char.toLower) (cs ++ rest) = some rest := by
  induction cs with
  | nil => cases rest <;> rfl
  | cons c cs ih => rw [List.map_cons, List.cons_append, Text.stripAnyCase?, if_pos rfl, ih]

theorem named_keyword (text rest : List Char) (n : String) (named : Named text n rest) :
    Reads (R := R) (keyword n) ⟨text, G⟩ ⟨skip rest, G⟩ (fun _ => True) := by
  obtain ⟨⟨first, more, rfl, start, letters, rfl⟩, stops⟩ := named
  refine begun_reads _ _ rest ?_ stops
  rw [lowered, String.toList_ofList]
  exact strip_lowered (first :: more) rest

theorem yields_name : Yields (R := R) G name (fun entry => IsName entry.2) := by
  intro c entry next same done
  obtain ⟨rest, named, reached⟩ := name_done c next entry done
  exact ⟨named_is_name _ rest _ named, (congrArg Place.requirements reached).trans same⟩

theorem yields_variable : Yields (R := R) G variableName (fun entry => IsVariable entry.2) :=
  yields_bind yields_cursor fun _ _ =>
    yields_bind (yields_named _ (yields_bind (yields_symbol '?') fun _ _ => yields_name)) fun entry isName =>
      yields_pure _ ⟨entry.2, isName, rfl⟩

theorem yields_term : Yields (R := R) G term IsTerm :=
  yields_bind (P := fun entry => IsName entry.2 ∨ IsVariable entry.2)
    (yields_either (yields_weaken yields_variable fun _ => .inr) (yields_weaken yields_name fun _ => .inl))
    fun _ known => yields_pure _ ⟨rfl, known⟩

theorem yields_atom : Yields (R := R) G atom AtomReads :=
  yields_parens (yields_bind yields_name fun _ isName =>
    yields_then_pure _ (yields_many yields_term) fun _ terms => ⟨isName, terms⟩)

theorem yields_typed_group {item : Parser R (Span × String)} {isWord : String → Prop}
    (yields : Yields G item (fun entry => isWord entry.2)) :
    Yields G (typedGroup item) (fun entries => Declares isWord (Opens G) (entries.map Prod.snd)) := by
  refine yields_bind (yields_many_one yields) fun entries words => ?_
  refine yields_then_pure (P := fun kind => ∀ entry ∈ kind, IsName entry.2 ∧ Opens G [.typing]) _ ?_
    fun kind typed => ?_
  · refine yields_opt (P := fun entry => IsName entry.2 ∧ Opens G [.typing]) ?_ (by simp) (by simp)
    refine yields_bind (yields_requires _ (yields_sign '-')) fun _ typing => ?_
    exact yields_weaken (yields_cut yields_name) fun _ isName => ⟨isName, typing.2⟩
  · intro t member
    rw [List.map_map] at member
    obtain ⟨entry, listed, rfl⟩ := List.mem_map.mp member
    refine ⟨words.2 entry listed, fun k given => ?_⟩
    obtain ⟨known, found, rfl⟩ := Option.map_eq_some_iff.mp given
    exact typed known found

theorem yields_typed_list {item : Parser R (Span × String)} {isWord : String → Prop}
    (yields : Yields G item (fun entry => isWord entry.2)) :
    Yields G (typedList item) (fun entries => Declares isWord (Opens G) (entries.map Prod.snd)) := by
  refine yields_then_pure _ (yields_named _ (yields_many (yields_typed_group yields))) fun groups each => ?_
  intro t member
  rw [List.map_flatten] at member
  obtain ⟨ts, listed, known⟩ := List.mem_flatten.mp member
  obtain ⟨group, isGroup, rfl⟩ := List.mem_map.mp listed
  exact each group isGroup t known

theorem atom_plain {k : String} {p : Parser R β} {f : β → Parser R α} (c next : Cursor) (a : Atom)
    (e : Diagnostic R) (done : (atom : Parser R Atom) c = .done a next) (missed : parens (p >>= f) c = .miss e)
    (sure : ∀ u, Sure (f u)) (gate : ∀ c e, p c = .miss e → ∃ e, (keyword k : Parser R Unit) c = .miss e) : a.name ≠ k := by
  rintro rfl
  obtain ⟨inside, later, opened, done⟩ := parens_done c next a done
  obtain ⟨e, nothing⟩ := parens_missed c inside e opened missed
  obtain ⟨e, nothing⟩ := sure_bind_missed inside e sure nothing
  obtain ⟨e, nothing⟩ := gate inside e nothing
  obtain ⟨entry, after, first, done⟩ := bind_done inside later a done
  obtain ⟨args, last, -, done⟩ := bind_done after later a done
  obtain ⟨rfl, -⟩ := pure_done _ a last later done
  obtain ⟨rest, named, -⟩ := name_done inside after entry first
  exact reads_not_miss inside e (named_keyword _ rest _ named) nothing

end Replan.Source
