import Replan.Proofs.Source.Retyping

set_option autoImplicit false

namespace Replan.Source

open Replan.Source.Parser

variable {R α γ : Type} {n m k : Nat} {view : α → γ}

theorem agree_satisfy (accepts : Char → Bool) (steady : Steady accepts) (look : Char → γ)
    (seen : ∀ c d : Char, accepts c = true → accepts d = true → c.toLower = d.toLower → look c = look d) :
    Agree (R := R) n m 1 look (satisfy accepts) (satisfy accepts) := by
  rintro ⟨xs, offset, inProblem, G⟩ ⟨ys, offset', inProblem', G'⟩ ⟨text, requirements, -, -⟩
  rw [satisfy, satisfy]
  cases retyped_heads xs ys text with
  | ended => exact .miss _ _
  | @plain c d xs ys plain same rest =>
      have alike := steady.same c d same
      cases accepted : accepts c with
      | true =>
          rw [accepted] at alike
          simp only [accepted, ← alike, if_true]
          exact .done (seen c d accepted alike.symm same) ⟨rest, requirements, Nat.lt_succ_self _, Nat.lt_succ_self _⟩
      | false =>
          rw [accepted] at alike
          simp only [accepted, ← alike, Bool.false_eq_true, if_false]
          exact .miss _ _
  | @layout c d xs ys before after =>
      simp only [steady_refuses accepts steady c before, steady_refuses accepts steady d after, Bool.false_eq_true,
        if_false]
      exact .miss _ _

theorem agree_take_while (accepts : Char → Bool) (steady : Steady accepts) (look : Char → γ)
    (seen : ∀ c d : Char, accepts c = true → accepts d = true → c.toLower = d.toLower → look c = look d) :
    Agree (R := R) n m 0 (List.map look) (takeWhile accepts) (takeWhile accepts) := by
  intro c d near
  obtain ⟨taken, rest⟩ := taken_retyped accepts steady look seen c.rest d.rest near.text
  exact .done taken ⟨rest, near.requirements, Nat.lt_succ_of_le (List.length_dropWhile_le _ _),
    Nat.lt_succ_of_le (List.length_dropWhile_le _ _)⟩

theorem agree_not_followed (accepts : Char → Bool) (steady : Steady accepts) :
    Agree (R := R) n m 0 id (notFollowedBy accepts) (notFollowedBy accepts) := by
  rintro ⟨xs, offset, inProblem, G⟩ ⟨ys, offset', inProblem', G'⟩ near
  have here := near_here near
  rw [notFollowedBy, notFollowedBy]
  cases retyped_heads xs ys near.text with
  | ended => exact .done rfl here
  | @plain c d xs ys plain same rest =>
      simp only [steady.same c d same]
      split
      · exact .miss _ _
      · exact .done rfl here
  | @layout c d xs ys before after =>
      simp only [steady_refuses accepts steady c before, steady_refuses accepts steady d after, Bool.false_eq_true,
        if_false]
      exact .done rfl here

theorem agree_symbol (ch : Char) (isSign : IsSign ch) : Agree (R := R) n m 1 id (symbol ch) (symbol ch) :=
  agree_bind 1 (agree_satisfy _ (steady_sign ch isSign) (fun _ => ()) fun _ _ _ _ _ => rfl) fun _ _ _ => agree_pure rfl

theorem agree_blanks : Agree (R := R) n m 0 id blanks blanks := fun c d near =>
  .done rfl ⟨skip_retyped c.rest d.rest near.text, near.requirements, Nat.lt_succ_of_le (skip_le _),
    Nat.lt_succ_of_le (skip_le _)⟩

theorem agree_sign (ch : Char) (isSign : IsSign ch) : Agree (R := R) n m 1 id (sign ch) (sign ch) :=
  agree_bind_same 1 (agree_symbol ch isSign) fun _ => agree_blanks

def IsMark (w : String) : Prop := w.toList ≠ [] ∧ (w.toList.all fun c => Plain c) = true

instance : DecidablePred IsMark := fun w =>
  inferInstanceAs (Decidable (w.toList ≠ [] ∧ (w.toList.all fun c => Plain c) = true))

theorem stripped_length (mark text rest : List Char) (stripped : Text.stripAnyCase? mark text = some rest) :
    rest.length + mark.length = text.length := by
  obtain ⟨letters, rfl, rfl⟩ := stripped_letters mark text rest stripped
  rw [List.length_map, List.length_append, Nat.add_comm]

theorem agree_word (w : String) (isMark : IsMark w) : Agree (R := R) n m 1 id (word w) (word w) := by
  intro c d near
  have plain : ∀ ch ∈ w.toList, Plain ch := fun ch member => by simpa using List.all_eq_true.mp isMark.2 ch member
  have nonempty := List.length_pos_iff.mpr isMark.1
  rw [word, word]
  rcases stripped_retyped w.toList c.rest d.rest plain near.text with
    ⟨nothing, nothingToo⟩ | ⟨xs, ys, here, there, rest⟩
  · rw [nothing, nothingToo]
    exact .miss _ _
  · have first := stripped_length _ _ _ here
    have second := stripped_length _ _ _ there
    rw [here, there]
    exact .done rfl ⟨rest, near.requirements, show xs.length < _ by omega, show ys.length < _ by omega⟩

theorem agree_keyword (w : String) (isMark : IsMark w) : Agree (R := R) n m 1 id (keyword w) (keyword w) :=
  agree_named _ _ (agree_bind_same 1 (agree_word w isMark) fun _ =>
    agree_bind_same 0 (agree_not_followed isNameChar steady_name_char) fun _ => agree_blanks)

variable {p q : Parser R α} {item : Parser R (Span × String)}

theorem agree_parens (agree : Agree (n - 1) (m - 1) 0 view p q) : Agree n m 1 view (parens p) (parens q) :=
  agree_bind 0 agree_cursor fun _ _ _ =>
    agree_bind_same 1 (agree_named _ _ (agree_sign '(' (by decide))) fun _ => agree_bind 0 agree fun _ _ same =>
      agree_next_same (agree_cut (agree_named _ _ (agree_sign ')' (by decide)))) fun _ => agree_pure same

theorem agree_form {β : Type} {word : Parser R β} {f g : β → Parser R α} (first : Agree (n - 1) (m - 1) 1 id word word)
    (second : ∀ b, Agree (n - 1) (m - 1) 0 view (f b) (g b)) :
    Agree n m 1 view (parens (word >>= f)) (parens (word >>= g)) :=
  agree_parens (agree_next_same first second)

theorem agree_empty_parens : Agree (R := R) n m 1 id emptyParens emptyParens :=
  agree_bind_same 1 (agree_sign '(' (by decide)) fun _ => agree_loose (agree_sign ')' (by decide))

theorem agree_name : Agree (R := R) n m 1 Prod.snd name name := by
  have start {n m : Nat} : Agree (R := R) n m 1 Char.toLower (satisfy isNameStart) (satisfy isNameStart) :=
    agree_satisfy isNameStart steady_name_start Char.toLower fun _ _ _ _ same => same
  refine agree_bind 0 agree_cursor fun _ _ _ => agree_bind 1 (agree_named _ _ start) fun a b first => ?_
  refine agree_bind 0 (agree_take_while isNameChar steady_name_char Char.toLower fun _ _ _ _ same => same)
    fun as bs more => ?_
  refine agree_bind 0 agree_cursor fun _ _ _ => agree_bind_same 0 agree_blanks fun _ => agree_pure ?_
  simp only [lowered, List.map_cons, first, more]

theorem agree_variable : Agree (R := R) n m 1 Prod.snd variableName variableName := by
  have marked : Agree (R := R) n m 1 Prod.snd (symbol '?' >>= fun _ => name) (symbol '?' >>= fun _ => name) :=
    agree_bind_same 1 (agree_symbol '?' (by decide)) fun _ => agree_loose agree_name
  refine agree_bind 0 agree_cursor fun _ _ _ => ?_
  exact agree_bind 1 (agree_named _ _ marked) fun a b same => agree_pure (congrArg ("?" ++ ·) same)

theorem agree_term : Agree (R := R) n m 1 id term term :=
  agree_bind 1 (agree_either agree_variable agree_name) fun _ _ same => agree_pure (congrArg Term.untyped same)

theorem agree_atom : Agree (R := R) n m 1 id atom atom := by
  refine agree_parens (agree_next agree_name fun a b same => ?_)
  exact agree_bind_same 0 (agree_many_same agree_term) fun args => agree_pure (congrArg (Atom.mk · args) same)

theorem agree_typing : Agree (R := R) n m 0 Prod.snd (requires [.typing] (sign '-') >>= fun _ => cut name)
    (requires [.typing] (sign '-') >>= fun _ => cut name) :=
  agree_next_same (agree_requires _ (agree_sign '-' (by decide))) fun _ => agree_loose (agree_cut agree_name)

theorem typed_terms_same (as bs : List (Span × String)) (kind other : Option (Span × String))
    (names : as.map Prod.snd = bs.map Prod.snd) (kinds : kind.map Prod.snd = other.map Prod.snd) :
    (as.map fun entry => (entry.1, Term.mk entry.2 (kind.map Prod.snd))).map Prod.snd =
      (bs.map fun entry => (entry.1, Term.mk entry.2 (other.map Prod.snd))).map Prod.snd := by
  have terms (es : List (Span × String)) (k : Option String) :
      (es.map fun entry => (entry.1, Term.mk entry.2 k)).map Prod.snd = (es.map Prod.snd).map (Term.mk · k) := by
    rw [List.map_map, List.map_map]
    rfl
  rw [terms, terms, names, kinds]

theorem agree_typed_group (agree : ∀ n m, Agree n m 1 Prod.snd item item) :
    Agree n m 1 (List.map Prod.snd) (typedGroup item) (typedGroup item) :=
  agree_bind 1 (agree_many_one (agree n m)) fun as bs names =>
    agree_bind 0 (agree_opt agree_typing) fun kind other kinds =>
      agree_pure (typed_terms_same as bs kind other names kinds)

theorem agree_typed_list (agree : ∀ n m, Agree n m 1 Prod.snd item item) :
    Agree n m 0 (List.map Prod.snd) (typedList item) (typedList item) := by
  refine agree_bind 0 (agree_named _ _ (agree_many (agree_typed_group agree))) fun groups others same => agree_pure ?_
  rw [List.map_flatten, List.map_flatten, same]

theorem agree_digit : Agree (R := R) n m 1 id (satisfy Char.isDigit) (satisfy Char.isDigit) :=
  agree_satisfy _ steady_digit id digit_same

theorem agree_digits : Agree (R := R) n m 0 id (takeWhile Char.isDigit) (takeWhile Char.isDigit) :=
  agree_view (agree_take_while _ steady_digit id digit_same) fun as bs same => by simpa using same

theorem agree_digit_groups : Agree (R := R) n m 1 id digitGroups digitGroups := by
  refine agree_either ?_ ?_
  · refine agree_bind_same 1 agree_digit fun _ => agree_bind_same 0 agree_digits fun _ => ?_
    refine agree_bind_same 0 (agree_opt_same ?_) fun _ => agree_pure rfl
    exact agree_next_same (agree_symbol '.' (by decide)) fun _ => agree_digits
  · refine agree_bind_same 1 (agree_symbol '.' (by decide)) fun _ => ?_
    exact agree_next_same agree_digit fun _ => agree_bind_same 0 agree_digits fun _ => agree_pure rfl

variable [Number R]

theorem agree_decimal : Agree (R := R) n m 1 id decimal decimal := by
  refine agree_named _ _ (agree_bind_same 0 (agree_opt_same (agree_loose (agree_symbol '-' (by decide)))) fun _ => ?_)
  exact agree_bind_same 1 agree_digit_groups fun _ => agree_pure rfl

theorem agree_number : Agree (R := R) n m 1 id number number := by
  refine agree_bind_same 1 agree_decimal fun _ => agree_bind_same 0 (agree_opt_same ?_) fun denominator => ?_
  · exact agree_next_same (agree_symbol '/' (by decide)) fun _ => agree_loose agree_decimal
  · refine agree_bind_same 0 agree_blanks fun _ => ?_
    cases denominator <;> exact agree_pure rfl

end Replan.Source
