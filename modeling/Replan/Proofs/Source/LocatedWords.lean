import Mathlib
import Replan.Proofs.Source.Locating
import Replan.Proofs.Source.Yielding
import Replan.Source.Checks

set_option autoImplicit false

namespace Replan.Source

open Replan.Source.Parser

variable {R α : Type} {s : Cursor} {p : Parser R α}

theorem lower_size (c : Char) : c.toLower.utf8Size = c.utf8Size := by
  by_cases upper : c.val ≥ 'A'.val ∧ c.val ≤ 'Z'.val
  · have small : c.val.toNat ≤ 90 := upper.2
    have lower : c.toLower.val.toNat ≤ 122 := by
      rw [Char.toLower, dif_pos upper]
      show (c.val + 32).toNat ≤ 122
      rw [UInt32.toNat_add]
      exact Nat.le_trans (Nat.mod_le _ _) (Nat.add_le_add_right small 32)
    have here : c.utf8Size = 1 := Char.utf8Size_eq_one_iff.mpr (Nat.le_trans small (by decide))
    have there : c.toLower.utf8Size = 1 := Char.utf8Size_eq_one_iff.mpr (Nat.le_trans lower (by decide))
    rw [here, there]
  · rw [Char.toLower, dif_neg upper]

theorem lower_width (cs : List Char) : Cursor.width (cs.map Char.toLower) = Cursor.width cs := by
  induction cs with
  | nil => rfl
  | cons c cs ih => rw [List.map_cons, Cursor.width_cons, Cursor.width_cons, lower_size, ih]

theorem blanks_suffix (rest : List Char) : skip rest <:+ rest := by
  suffices ∀ inComment, afterBlanks inComment rest <:+ rest from this false
  induction rest with
  | nil => exact fun _ => List.suffix_rfl
  | cons c rest ih =>
      intro inComment
      have within (b : Bool) : afterBlanks b rest <:+ c :: rest := (ih b).trans (List.suffix_cons c rest)
      rw [afterBlanks]
      split
      · exact within _
      · split
        · exact within _
        · split
          · exact within _
          · exact List.suffix_rfl

theorem points_blanks : Points (R := R) s blanks := by
  intro before c read
  obtain ⟨taken, text⟩ := blanks_suffix c.rest
  have cut : c.rest.take (c.rest.length - (skip c.rest).length) = taken := by
    generalize skip c.rest = rest at text ⊢
    rw [← text, List.length_append, Nat.add_sub_cancel, List.take_left]
  have onward : c.Reaches (c.moved (c.rest.take (c.rest.length - (skip c.rest).length)) (skip c.rest)) := by
    rw [cut]
    exact ⟨taken, c.moved_moves _ _ text.symm⟩
  exact .done onward (.moved read onward)

theorem satisfy_reply (accepts : Char → Bool) (c : Cursor) :
    satisfy (R := R) accepts c = missing c ∨
      ∃ ch rest, c.rest = ch :: rest ∧ accepts ch = true ∧ satisfy (R := R) accepts c = .done ch (c.moved [ch] rest) := by
  rw [satisfy]
  cases text : c.rest with
  | nil => exact .inl rfl
  | cons ch rest =>
      by_cases accepted : accepts ch = true
      · exact .inr ⟨ch, rest, rfl, accepted, by simp only [if_pos accepted]⟩
      · exact .inl (by simp only [if_neg accepted])

theorem points_satisfy (accepts : Char → Bool) : Points (R := R) s (satisfy accepts) := by
  intro before c read
  rcases satisfy_reply (R := R) accepts c with missed | found
  · rw [missed]
    exact located_missing (Cursor.names_reached read)
  · obtain ⟨ch, rest, text, -, done⟩ := found
    rw [done]
    have onward : c.Reaches (c.moved [ch] rest) := ⟨[ch], c.moved_moves _ _ text⟩
    exact .done onward (.moved read onward)

theorem points_take_while (accepts : Char → Bool) : Points (R := R) s (takeWhile accepts) := by
  intro before c read
  have onward : c.Reaches (c.moved (c.rest.takeWhile accepts) (c.rest.dropWhile accepts)) :=
    ⟨_, c.moved_moves _ _ List.takeWhile_append_dropWhile.symm⟩
  exact .done onward (.moved read onward)

theorem points_not_followed (accepts : Char → Bool) : Points (R := R) s (notFollowedBy accepts) := by
  intro before c read
  rw [notFollowedBy]
  cases c.rest with
  | nil => exact .done (Cursor.reaches_here c) read
  | cons ch rest =>
      by_cases accepted : accepts ch = true
      · simp only [if_pos accepted]
        exact located_missing (Cursor.names_reached read)
      · simp only [if_neg accepted]
        exact .done (Cursor.reaches_here c) read

theorem points_word (w : String) : Points (R := R) s (word w) := by
  intro before c read
  rw [word]
  cases stripped : Text.stripAnyCase? w.toList c.rest with
  | none => exact located_missing (Cursor.names_reached read)
  | some rest =>
      obtain ⟨taken, text, lower⟩ := stripped_letters _ _ _ stripped
      have width : Cursor.width taken = Cursor.width w.toList := by rw [← lower, lower_width]
      have onward : c.Reaches (c.moved w.toList rest) := ⟨taken, text, by rw [width]; rfl, rfl⟩
      exact .done onward (.moved read onward)

theorem points_symbol (ch : Char) : Points (R := R) s (symbol ch) := points_then _ (points_satisfy _)

theorem points_sign (ch : Char) : Points (R := R) s (sign ch) := points_bind (points_symbol ch) fun _ => points_blanks

theorem points_keyword (w : String) : Points (R := R) s (keyword w) :=
  points_named _ nofun (points_bind (points_word w) fun _ => points_bind (points_not_followed _) fun _ => points_blanks)

theorem symbol_head (ch : Char) (c next : Cursor) (done : symbol (R := R) ch c = .done () next) :
    c.rest.head? = some ch := by
  obtain ⟨d, later, first, -⟩ := bind_done c next () done
  rcases satisfy_reply (R := R) (· == ch) c with missed | found
  · rw [missed] at first
    cases first
  · obtain ⟨e, rest, text, same, -⟩ := found
    rw [text, List.head?_cons, beq_iff_eq.mp same]

theorem sign_head (ch : Char) (c next : Cursor) (done : sign (R := R) ch c = .done () next) :
    c.rest.head? = some ch := by
  obtain ⟨_, later, first, -⟩ := bind_done c next () done
  exact symbol_head ch c later first

theorem follows_closing (start : Cursor) (reached : s.Reaches start) (opened : start.rest.head? = some '(')
    (before : NameList) :
    Follows (R := R) s before (cut (named (.unclosedParenthesis start.offset) (sign ')'))) fun _ => before := by
  intro c read
  have reply := points_sign (R := R) ')' before c read
  rw [cut, named]
  generalize sign ')' c = x at reply ⊢
  cases reply with
  | done onward further => exact .done onward further
  | fail seen => exact .fail seen
  | miss seen =>
      refine .fail ⟨seen.span, fun offset same => ?_⟩
      exact ⟨start, reached, (ErrorKind.unclosedParenthesis.inj same), opened⟩

theorem follows_parens {before : NameList} {after : α → NameList} (inside : Follows s before p after) :
    Follows s before (parens p) after := by
  intro c read
  have opening := points_named (R := R) .parenthesis nofun (points_sign '(') before c read
  have head (next : Cursor) (done : named (R := R) .parenthesis (sign '(') c = .done () next) : c.rest.head? = some '(' := by
    rw [named] at done
    cases first : sign (R := R) '(' c with
    | done _ later => exact sign_head '(' c later first
    | miss fault =>
        rw [first] at done
        cases done
    | fail fault =>
        rw [first] at done
        cases done
  show Located s c after (andThen (named .parenthesis (sign '(')) _ c)
  rw [andThen]
  generalize named .parenthesis (sign '(') c = x at opening head ⊢
  cases opening with
  | miss seen => exact .miss seen
  | fail seen => exact .fail seen
  | @done _ next onward further =>
      have closing := follows_closing (R := R) c (Cursor.names_reached read) (head next rfl)
      have rest : Follows s before (p >>= fun a => cut (named (.unclosedParenthesis c.offset) (sign ')')) >>= fun _ => pure a)
          after :=
        follows_bind inside fun a => follows_bind (closing (after a)) fun _ => follows_pure a rfl
      have reply := rest next further
      simp only
      generalize (p >>= fun a => cut (named (.unclosedParenthesis c.offset) (sign ')')) >>= fun _ => pure a) next = y
        at reply ⊢
      cases reply with
      | done later read' => exact .done (Cursor.reaches_on onward later) read'
      | miss seen => exact .miss seen
      | fail seen => exact .fail seen

theorem points_parens (points : Points s p) : Points s (parens p) := fun before => follows_parens (points before)

theorem points_empty_parens : Points (R := R) s emptyParens := points_bind (points_sign '(') fun _ => points_sign ')'

theorem name_reply (c : Cursor) :
    name (R := R) c = .miss ⟨.expectedName, c.here⟩ ∨
      ∃ word d next, word ≠ [] ∧ c.Moves word d ∧ d.Reaches next ∧
        name (R := R) c = .done (c.spanTo d.offset, lowered word) next := by
  rcases satisfy_reply (R := R) isNameStart c with missed | found
  · refine .inl ?_
    have first : named (R := R) .expectedName (satisfy isNameStart) c = .miss ⟨.expectedName, c.here⟩ := by
      rw [named, missed]
      rfl
    show andThen (named .expectedName (satisfy isNameStart)) _ c = _
    rw [andThen, first]
  · obtain ⟨ch, rest, text, -, done⟩ := found
    have first : named (R := R) .expectedName (satisfy isNameStart) c = .done ch (c.moved [ch] rest) := by
      rw [named, done]
    have head := c.moved_moves [ch] rest text
    have more := (c.moved [ch] rest).moved_moves _ _ (List.takeWhile_append_dropWhile (p := isNameChar)).symm
    have reply := points_blanks (R := R) [] _ (.moved .start ⟨_, Cursor.moves_on head more⟩)
    refine .inr ⟨_, _, _, List.cons_ne_nil ch _, Cursor.moves_on head more, ?_, done_bind first⟩
    cases reply with
    | done onward _ => exact onward

theorem lists_name : Lists (R := R) s (fun entry => [entry]) name := by
  intro before c read
  rcases name_reply (R := R) c with missed | found
  · rw [missed]
    exact .miss ⟨Cursor.spans_here (Cursor.names_reached read), nofun⟩
  · obtain ⟨word, d, next, nonempty, moves, onward, done⟩ := found
    rw [done]
    exact .done (Cursor.reaches_on ⟨word, moves⟩ onward) (.moved (.name read moves nonempty) onward)

theorem lowered_variable (word : List Char) : lowered ('?' :: word) = "?" ++ lowered word := by
  rw [lowered, lowered, List.map_cons, ← List.singleton_append, String.ofList_append]
  rfl

theorem lists_variable : Lists (R := R) s (fun entry => [entry]) variableName := by
  intro before c read
  have reached := Cursor.names_reached read
  have missed (fault : Diagnostic R) (seen : s.Spans fault.span)
      (nothing : (symbol '?' >>= fun _ => name) c = .miss fault) : Located s c (fun entry => before ++ [entry]) (variableName (R := R) c) := by
    have first : named (R := R) .expectedVariable (symbol '?' >>= fun _ => name) c =
        .miss { fault with kind := .expectedVariable } := by
      rw [named, nothing]
    show Located s c _ (andThen (named .expectedVariable (symbol '?' >>= fun _ => name)) _ c)
    rw [andThen, first]
    exact .miss ⟨seen, fun offset same => by cases same⟩
  rcases satisfy_reply (R := R) (· == '?') c with nothing | found
  · refine missed ⟨.malformed, c.here⟩ (Cursor.spans_here reached) ?_
    show andThen (andThen (satisfy (· == '?')) _) _ c = _
    rw [andThen, andThen, nothing]
    rfl
  · obtain ⟨mark, rest, text, same, done⟩ := found
    rw [beq_iff_eq.mp same] at text done
    have head := c.moved_moves ['?'] rest text
    have marked : symbol (R := R) '?' c = .done () (c.moved ['?'] rest) := done_bind done
    rcases name_reply (R := R) (c.moved ['?'] rest) with nothing | found
    · have here := Cursor.spans_here (Cursor.reaches_on reached ⟨_, head⟩)
      exact missed ⟨.expectedName, _⟩ here ((done_bind marked).trans nothing)
    · obtain ⟨word, d, next, -, moves, onward, named⟩ := found
      have whole := Cursor.moves_on head moves
      have inside : (symbol '?' >>= fun _ => name) c = .done _ next := (done_bind marked).trans named
      have reply : variableName (R := R) c = .done (c.spanTo d.offset, "?" ++ lowered word) next := by
        show andThen (Parser.named .expectedVariable (symbol '?' >>= fun _ => name)) _ c = _
        rw [andThen, Parser.named, inside]
        rfl
      rw [reply]
      have listed := Cursor.Names.name read whole (List.cons_ne_nil '?' word)
      rw [List.singleton_append, lowered_variable] at listed
      exact .done (Cursor.reaches_on ⟨_, whole⟩ onward) (.moved listed onward)

theorem points_term : Points (R := R) s term :=
  points_then _ (points_either (points_of_lists lists_variable) (points_of_lists lists_name))

theorem lists_typed_group {item : Parser R (Span × String)} (lists : Lists s (fun entry => [entry]) item) :
    Lists s termNames (typedGroup item) := by
  intro before
  have type : Points (R := R) s (requires [.typing] (sign '-') >>= fun _ => cut name) :=
    points_bind (points_requires _ (points_sign '-')) fun _ => points_cut (points_of_lists lists_name)
  refine follows_bind (lists_many_one lists before) fun items => ?_
  refine follows_bind (points_opt type _) fun kind => follows_pure _ ?_
  show before ++ items.flatMap (fun entry => [entry]) = _
  rw [termNames, List.map_map, List.flatMap_singleton']
  exact congrArg (before ++ ·) (List.map_id' items).symm

theorem lists_typed_list {item : Parser R (Span × String)} (lists : Lists s (fun entry => [entry]) item) :
    Lists s termNames (typedList item) := by
  intro before
  refine follows_bind (follows_named _ nofun (lists_many (lists_typed_group lists) before)) fun groups => follows_pure _ ?_
  rw [termNames, List.map_flatten]
  rfl

theorem points_atom : Points (R := R) s atom :=
  points_parens (points_bind (points_of_lists lists_name) fun _ => points_then _ (points_many points_term))

theorem points_digit_groups : Points (R := R) s digitGroups := by
  have digit : Points (R := R) s (satisfy Char.isDigit) := points_satisfy _
  have digits : Points (R := R) s (takeWhile Char.isDigit) := points_take_while _
  refine points_either ?_ ?_
  · refine points_bind digit fun _ => points_bind digits fun _ => points_then _ (points_opt ?_)
    exact points_bind (points_symbol '.') fun _ => digits
  · exact points_bind (points_symbol '.') fun _ => points_bind digit fun _ => points_then _ digits

variable [Number R]

theorem points_decimal : Points (R := R) s decimal :=
  points_named _ nofun (points_bind (points_opt (points_symbol '-')) fun _ => points_then _ points_digit_groups)

theorem points_number : Points (R := R) s number := by
  refine points_bind points_decimal fun _ => points_bind (points_opt ?_) fun denominator => ?_
  · exact points_bind (points_symbol '/') fun _ => points_decimal
  · refine points_bind points_blanks fun _ => ?_
    cases denominator <;> exact points_pure _

end Replan.Source
