import Replan.Proofs.Source.Alternatives
import Replan.Proofs.Source.Grammar
import Replan.Proofs.Source.ReadNames

set_option autoImplicit false

namespace Replan.Source

open Replan.Source.Parser

variable {R α β : Type} {G : RequirementSet}

theorem yields_digit_groups : Yields (R := R) G digitGroups (fun _ => True) := by
  refine yields_either ?_ ?_
  · refine yields_bind (yields_satisfy _) fun _ _ => yields_bind (yields_take_while _) fun _ _ => ?_
    exact yields_then_pure _ (yields_opt (Q := fun _ => True) (yields_bind (yields_symbol '.') fun _ _ =>
      yields_take_while _) (fun _ _ => trivial) trivial) fun _ _ => trivial
  · refine yields_bind (yields_symbol '.') fun _ _ => yields_bind (yields_satisfy _) fun _ _ => ?_
    exact yields_then_pure _ (yields_take_while _) fun _ _ => trivial

theorem yields_arithmetic_op : Yields (R := R) G arithmeticOp (fun _ => True) := by
  refine yields_first_of _ (yields_as _ (yields_sign _) trivial) fun q member => ?_
  simp only [List.mem_cons, List.not_mem_nil, or_false] at member
  rcases member with rfl | rfl | rfl <;> exact yields_as _ (yields_sign _) trivial

theorem yields_comparison_op : Yields (R := R) G comparisonOp (fun _ => True) := by
  refine yields_first_of _ (yields_as _ (yields_keyword _) trivial) fun q member => ?_
  simp only [List.mem_cons, List.not_mem_nil, or_false] at member
  rcases member with rfl | rfl | rfl | rfl <;> exact yields_as _ (yields_keyword _) trivial

variable [Number R]

theorem yields_decimal : Yields (R := R) G decimal (fun _ => True) :=
  yields_named _ (yields_bind (yields_opt (Q := fun _ => True) (yields_symbol '-') (fun _ _ => trivial) trivial)
    fun _ _ => yields_then_pure _ yields_digit_groups fun _ _ => trivial)

theorem yields_number : Yields (R := R) G number (fun _ => True) := by
  refine yields_bind yields_decimal fun _ _ => ?_
  refine yields_bind (yields_opt (Q := fun _ => True) (yields_bind (yields_symbol '/') fun _ _ => yields_decimal)
    (fun _ _ => trivial) trivial) fun denominator _ => ?_
  refine yields_bind yields_blanks fun _ _ => ?_
  cases denominator with
  | none => exact yields_pure _ trivial
  | some d => exact yields_pure _ trivial

theorem yields_expression_within (depth : Nat) :
    Yields (R := R) G (expressionWithin depth) (Query.IsExpression (Opens G) fun _ => True) := by
  induction depth with
  | zero =>
      intro c q next same done
      cases done
  | succ depth ih =>
      refine yields_first_of _ (yields_then_pure _ yields_number fun _ => id) fun p member => ?_
      simp only [List.mem_cons, List.not_mem_nil, or_false] at member
      rcases member with rfl | rfl
      · exact yields_parens (yields_bind yields_arithmetic_op fun _ _ => yields_bind ih fun _ left =>
          yields_then_pure _ ih fun _ right => ⟨left, right⟩)
      · exact yields_then_pure _ (yields_requires _ yields_atom) fun _ => id

theorem yields_expression : Yields (R := R) G expression (Query.IsExpression (Opens G) fun _ => True) :=
  fun c => yields_expression_within _ c

def BeginsNumber (text : List Char) : Prop :=
  ∃ digit more, digit.isDigit = true ∧ (text = digit :: more ∨ text = '-' :: digit :: more)

theorem number_found (text : List Char) (begins : BeginsNumber text) : Finds (R := R) number ⟨text, G⟩ := by
  obtain ⟨digit, more, isDigit, shape⟩ := begins
  have moved : Reads (R := R) (opt (symbol '-')) ⟨text, G⟩ ⟨digit :: more, G⟩ (fun _ => True) := by
    rcases shape with rfl | rfl
    · refine opt_nothing (symbol_misses '-' _ fun dash => ?_) trivial
      cases dash
      cases isDigit
    · exact opt_reads (symbol_reads '-' _) fun _ => id
  have whole := finds_reads (satisfy_reads (R := R) (G := G) Char.isDigit digit more isDigit)
  have groups : Finds (R := R) digitGroups ⟨digit :: more, G⟩ :=
    finds_either (finds_sure whole fun _ => sure_bind (sure_take_while _) fun _ => sure_bind sure_opt fun _ => sure_pure _)
  refine finds_sure (finds_named _ (finds_after moved fun _ _ => finds_sure groups fun _ => sure_pure _)) fun _ => ?_
  refine sure_bind sure_opt fun denominator => sure_bind sure_blanks fun _ => ?_
  cases denominator <;> exact sure_pure _

theorem expression_found (text : List Char) (begins : BeginsNumber text) :
    Finds (R := R) expression ⟨text, G⟩ := by
  intro c same e
  exact finds_either (finds_sure (number_found text begins) fun _ => sure_pure _) c same e

omit [Number R] in
theorem strip_head (m : Char) (mark text rest : List Char) (stripped : Text.stripAnyCase? (m :: mark) text = some rest) :
    ∃ c more, text = c :: more ∧ m = c.toLower := by
  obtain ⟨letters, rfl, lower⟩ := stripped_letters _ _ _ stripped
  obtain ⟨c, more, rfl, first, -⟩ := List.map_eq_cons_iff.mp lower
  exact ⟨c, more ++ rest, rfl, first.symm⟩

omit [Number R] in
theorem equals_done (c next : Cursor) (u : Unit) (done : (keyword "=" : Parser R Unit) c = .done u next) :
    Reads (R := R) comparisonOp c.place next.place (fun _ => True) := by
  by_cases begins : Begins "=" c.rest
  · obtain ⟨rest, stripped, stops⟩ := begins
    have equals : Reads (R := R) (keyword "=") c.place ⟨skip rest, c.requirements⟩ (fun _ => True) :=
      begun_reads "=" c.rest rest stripped stops
    obtain ⟨-, reached⟩ := reads_done c next u equals done
    rw [← reached] at equals
    obtain ⟨d, more, text, lower⟩ := strip_head '=' [] c.rest rest stripped
    have misses (k : String) (op : Comparison) (m : Char) (head : k.toList.head? = some m) (other : m ≠ '=') :
        Misses (R := R) (as op (keyword k)) c.place := by
      rw [Cursor.place, text]
      exact misses_bind (keyword_misses_first k m d more head (lower ▸ other))
    exact first_of_later _ (misses "<=" .atMost '<' (by decide) (by decide))
      (first_of_later _ (misses ">=" .atLeast '>' (by decide) (by decide))
      (first_of_later _ (misses "<" .less '<' (by decide) (by decide))
      (first_of_later _ (misses ">" .greater '>' (by decide) (by decide))
        (reads_then_pure _ equals fun _ => id))))
  · exact absurd done (misses_not_done c next u (keyword_misses "=" c.rest begins))

omit [Number R] in
theorem term_begins (c next : Cursor) (t : Term) (done : (term : Parser R Term) c = .done t next) :
    ∃ ch ∈ c.rest.head?, isNameStart ch = true ∨ ch = '?' := by
  by_contra other
  refine misses_not_done c next t (term_misses c.rest fun ch first => ?_) done
  constructor
  · by_contra start
    exact other ⟨ch, first, .inl (by simpa using start)⟩
  · rintro rfl
    exact other ⟨'?', first, .inr rfl⟩

omit [Number R] in
theorem digit_term_done (c next : Cursor) (t : Term) (done : (term : Parser R Term) c = .done t next)
    (digit : t.name.toList.head?.any Char.isDigit = true) :
    ∃ rest, Named c.rest t.name rest ∧ next.place = ⟨skip rest, c.requirements⟩ := by
  obtain ⟨entry, later, found, done⟩ := bind_done c next t done
  obtain ⟨rfl, rfl⟩ := pure_done _ t later next done
  rcases either_done c later entry found with isVariable | ⟨-, isName⟩
  · obtain ⟨⟨m, -, same⟩, -⟩ := yields_variable (G := c.requirements) c entry later rfl isVariable
    replace digit : entry.2.toList.head?.any Char.isDigit = true := digit
    rw [same, variable_to_list] at digit
    cases digit
  · exact name_done c later entry isName

omit [Number R] in
theorem named_digit (text rest : List Char) (n : String) (named : Named text n rest)
    (digit : n.toList.head?.any Char.isDigit = true) : BeginsNumber text := by
  obtain ⟨⟨first, more, shape, -, -, spelled⟩, -⟩ := named
  rw [spelled, lowered, String.toList_ofList] at digit
  refine ⟨first, more ++ rest, ?_, .inl shape⟩
  rw [← digit_lower]
  exact digit

omit [Number R] in
theorem dash_lower (c : Char) (same : c.toLower = '-') : c = '-' := by
  by_cases upper : c.isUpper = true
  · have lower : c.toLower.isLower = true := by rw [Char.isLower_toLower_eq_isAlpha, Char.isAlpha, upper, Bool.true_or]
    rw [same] at lower
    exact absurd lower (by decide)
  · rwa [Char.toLower_eq_of_not_isUpper upper] at same

omit [Number R] in
theorem two_numbers_split (text rest : List Char) (l r : String) (named : Named text l rest) (two : twoNumbers l r = true) :
    ∃ digits after, text = digits ++ after ∧ digits ≠ [] ∧ (∀ c ∈ digits, c.isDigit = true) ∧
      (after = rest ∧ r.toList.head?.any Char.isDigit = true ∨ after.head? = some '-' ∧ BeginsNumber after) := by
  obtain ⟨⟨first, more, shape, -, -, spelled⟩, -⟩ := named
  rw [twoNumbers, Bool.and_eq_true] at two
  obtain ⟨digit, next⟩ := two
  have lower : l.toList.dropWhile Char.isDigit = ((first :: more).dropWhile Char.isDigit).map Char.toLower := by
    rw [spelled, lowered, String.toList_ofList, List.dropWhile_map]
    congr 2
    funext c
    exact digit_lower c
  have firstDigit : first.isDigit = true := by
    rw [spelled, lowered, String.toList_ofList] at digit
    rw [← digit_lower]
    exact digit
  refine ⟨(first :: more).takeWhile Char.isDigit, (first :: more).dropWhile Char.isDigit ++ rest, ?_, ?_, ?_, ?_⟩
  · rw [← List.append_assoc, List.takeWhile_append_dropWhile, shape, List.cons_append]
  · rw [List.takeWhile_cons, if_pos firstDigit]
    exact List.cons_ne_nil _ _
  · exact fun c => List.mem_takeWhile_imp
  · rw [lower] at next
    cases after : (first :: more).dropWhile Char.isDigit with
    | nil =>
        rw [after] at next
        exact .inl ⟨rfl, next⟩
    | cons d others =>
        rw [after, List.map_cons] at next
        split at next
        · next empty => cases empty
        · next c others' same =>
            obtain ⟨dash, tail⟩ := List.cons.inj same
            cases others with
            | nil => cases tail
            | cons e others =>
                obtain ⟨rfl, -⟩ := List.cons.inj tail
                rw [digit_lower] at next
                rw [dash_lower d dash]
                exact .inr ⟨rfl, e, others ++ rest, next, .inr rfl⟩
        · cases next

omit [Number R] in
theorem skip_mark (mark : Char) (text : List Char) (first : text.head? = some mark)
    (plain : isBlank mark = false ∧ mark ≠ ';') : skip text = text := by
  have same := skip_solid text [] ⟨mark, first, plain⟩
  rwa [List.append_nil] at same

omit [Number R] in
theorem letter_not_digit (c : Char) (other : isNameChar c = false) : c.isDigit = false := by
  simp only [isNameChar, Char.isAlphanum, Bool.or_eq_false_iff] at other
  exact other.1.1.2

omit [Number R] in
theorem two_numbers_read (c₁ c₂ c₃ : Cursor) (l r : Term) (left : (term : Parser R Term) c₁ = .done l c₂)
    (right : (term : Parser R Term) c₂ = .done r c₃) (two : twoNumbers l.name r.name = true) :
    ∃ digits after, c₁.rest = digits ++ after ∧ digits ≠ [] ∧ (∀ c ∈ digits, c.isDigit = true) ∧ Stops after ∧
      after.head? ≠ some '/' ∧ BeginsNumber (skip after) := by
  have digit : l.name.toList.head?.any Char.isDigit = true := by
    rw [twoNumbers, Bool.and_eq_true] at two
    exact two.1
  obtain ⟨rest, named, second⟩ := digit_term_done c₁ c₂ l left digit
  obtain ⟨digits, after, text, nonempty, allDigits, follows⟩ := two_numbers_split c₁.rest rest l.name r.name named two
  refine ⟨digits, after, text, nonempty, allDigits, ?_⟩
  rcases follows with ⟨rfl, next⟩ | ⟨dash, begins⟩
  · obtain ⟨more, names, -⟩ := digit_term_done c₂ c₃ r right next
    have here : c₂.rest = skip after := congrArg Place.rest second
    have unmarked (mark : Char) (plain : isBlank mark = false ∧ mark ≠ ';') (other : isNameStart mark = false ∧ mark ≠ '?') :
        after.head? ≠ some mark := by
      intro first
      obtain ⟨ch, begins, start⟩ := term_begins c₂ c₃ r right
      rw [here, skip_mark mark after first plain, first] at begins
      cases begins
      exact start.elim (by rw [other.1]; exact Bool.false_ne_true) other.2
    refine ⟨fun c first => ⟨letter_not_digit c (named.stops c first), ?_⟩, unmarked '/' (by decide) (by decide), ?_⟩
    · rintro rfl
      exact unmarked '.' (by decide) (by decide) first
    · rw [← here]
      exact named_digit c₂.rest more r.name names next
  · refine ⟨fun c first => ?_, by rw [dash]; decide, ?_⟩
    · rw [dash] at first
      cases first
      decide
    · rwa [skip_mark '-' after dash (by decide)]

theorem equality_names (c c₁ c₂ c₃ : Cursor) (u : Unit) (l r : Term) (e : Diagnostic R)
    (equals : (keyword "=" : Parser R Unit) c = .done u c₁) (left : (term : Parser R Term) c₁ = .done l c₂)
    (right : (term : Parser R Term) c₂ = .done r c₃)
    (missed : (do
      let op ← comparisonOp
      let left ← expression
      let right ← expression
      pure (.comparison op left right) : Parser R (Query R)) c = .miss e) : twoNumbers l.name r.name = false := by
  by_contra two
  rw [Bool.not_eq_false] at two
  obtain ⟨digits, after, text, nonempty, allDigits, stops, noSlash, second⟩ := two_numbers_read c₁ c₂ c₃ l r left right two
  have first : Reads (R := R) number ⟨digits ++ after, c₁.requirements⟩ ⟨skip after, c₁.requirements⟩ (fun _ => True) := by
    have reads := number_reads (R := R) (G := c₁.requirements) ⟨false, digits, none⟩ ⟨nonempty, allDigits, by simp⟩
      after stops noSlash
    rw [show Numeral.text ⟨false, digits, none⟩ = digits by simp [Numeral.text]] at reads
    exact reads_weaken reads fun _ _ => trivial
  have number : Reads (R := R) expression c₁.place ⟨skip after, c₁.requirements⟩ (fun _ => True) := by
    rw [Cursor.place, text]
    exact reads_by_depth (first_of_here _ (reads_then_pure _ first fun _ => id))
  refine finds_after (equals_done c c₁ u equals) (fun op _ => ?_) c rfl e missed
  exact finds_after number fun left _ => finds_sure (expression_found _ second) fun _ => sure_pure _

end Replan.Source
