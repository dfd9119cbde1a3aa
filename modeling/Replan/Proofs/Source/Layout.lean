import Replan.Proofs.Source.ReadNames

set_option autoImplicit false

namespace Replan.Source

def Plain (c : Char) : Prop := isBlank c = false ∧ c ≠ ';'

instance : DecidablePred Plain := fun c => inferInstanceAs (Decidable (isBlank c = false ∧ c ≠ ';'))

inductive Layout : List Char → Prop where
  | nothing : Layout []
  | blank {c : Char} {rest : List Char} (blank : isBlank c = true) (more : Layout rest) : Layout (c :: rest)
  | comment {text rest : List Char} (line : '\n' ∉ text) (more : Layout rest) : Layout (';' :: (text ++ '\n' :: rest))

inductive LastLayout : List Char → Prop where
  | closed {u : List Char} (layout : Layout u) : LastLayout u
  | opened {u text : List Char} (layout : Layout u) (line : '\n' ∉ text) : LastLayout (u ++ ';' :: text)

-- Some layout stands for some layout, and a character for itself in any case.
inductive Retyped : List Char → List Char → Prop where
  | ended : Retyped [] []
  | plain {c d : Char} {xs ys : List Char} (plain : Plain c) (same : c.toLower = d.toLower) (rest : Retyped xs ys) :
      Retyped (c :: xs) (d :: ys)
  | layout {u v xs ys : List Char} (before : Layout u) (after : Layout v) (some : u ≠ []) (other : v ≠ [])
      (rest : Retyped xs ys) : Retyped (u ++ xs) (v ++ ys)
  | last {u v : List Char} (before : LastLayout u) (after : LastLayout v) (some : u ≠ []) (other : v ≠ []) :
      Retyped u v

def layoutMarks : List Char := [' ', '\t', '\r', '\n', ';']

theorem not_plain_mark (c : Char) (layout : ¬Plain c) : c ∈ layoutMarks := by
  by_contra other
  simp only [layoutMarks, List.mem_cons, List.not_mem_nil, or_false, not_or] at other
  exact layout ⟨by simp [isBlank, other], other.2.2.2.2⟩

theorem not_plain_refused (accepts : Char → Bool) (refuses : layoutMarks.any accepts = false) (c : Char)
    (layout : ¬Plain c) : accepts c = false :=
  Bool.eq_false_iff.mpr (List.any_eq_false.mp refuses c (not_plain_mark c layout))

theorem not_plain_letter (c : Char) (layout : ¬Plain c) : c.isAlpha = false :=
  not_plain_refused Char.isAlpha (by decide) c layout

theorem not_plain_lower (c : Char) (layout : ¬Plain c) : c.toLower = c :=
  no_letter_lower c (not_plain_letter c layout)

theorem plain_same (c d : Char) (same : c.toLower = d.toLower) (plain : Plain c) : Plain d := by
  by_contra layout
  rw [not_plain_lower d layout, mark_lower c d (not_plain_letter d layout)] at same
  exact layout (same ▸ plain)

theorem skip_comment (text rest : List Char) (line : '\n' ∉ text) :
    afterBlanks true (text ++ '\n' :: rest) = skip rest := by
  induction text with
  | nil => rfl
  | cons c text ih =>
      obtain ⟨notHere, notLater⟩ := not_or.mp (mt List.mem_cons.mpr line)
      rw [List.cons_append, afterBlanks, if_pos rfl, bne_iff_ne.mpr (Ne.symm notHere)]
      exact ih notLater

theorem skip_opened (text : List Char) (line : '\n' ∉ text) : afterBlanks true text = [] := by
  induction text with
  | nil => rfl
  | cons c text ih =>
      obtain ⟨notHere, notLater⟩ := not_or.mp (mt List.mem_cons.mpr line)
      rw [afterBlanks, if_pos rfl, bne_iff_ne.mpr (Ne.symm notHere)]
      exact ih notLater

theorem skip_layout (u rest : List Char) (layout : Layout u) : skip (u ++ rest) = skip rest := by
  induction layout with
  | nothing => rfl
  | blank blank more ih =>
      rw [List.cons_append, skip, afterBlanks, if_neg Bool.false_ne_true, if_pos blank]
      exact ih
  | @comment text others line more ih =>
      have rest : (';' :: (text ++ '\n' :: others)) ++ rest = ';' :: (text ++ '\n' :: (others ++ rest)) := by simp
      rw [rest]
      exact (skip_comment text _ line).trans ih

theorem skip_last (u : List Char) (last : LastLayout u) : skip u = [] := by
  cases last with
  | closed layout =>
      have all := skip_layout u [] layout
      rwa [List.append_nil] at all
  | opened layout line => exact (skip_layout _ _ layout).trans (skip_opened _ line)

theorem skip_plain (c : Char) (rest : List Char) (plain : Plain c) : skip (c :: rest) = c :: rest :=
  skip_solid [c] rest ⟨c, rfl, plain⟩

theorem skip_retyped (xs ys : List Char) (retyped : Retyped xs ys) : Retyped (skip xs) (skip ys) := by
  induction retyped with
  | ended => exact .ended
  | @plain c d xs ys plain same rest _ =>
      rw [skip_plain c xs plain, skip_plain d ys (plain_same c d same plain)]
      exact .plain plain same rest
  | @layout u v xs ys before after some other rest ih => rwa [skip_layout u xs before, skip_layout v ys after]
  | last before after some other =>
      rw [skip_last _ before, skip_last _ after]
      exact .ended

inductive Heads : List Char → List Char → Prop where
  | ended : Heads [] []
  | plain {c d : Char} {xs ys : List Char} (plain : Plain c) (same : c.toLower = d.toLower) (rest : Retyped xs ys) :
      Heads (c :: xs) (d :: ys)
  | layout {c d : Char} {xs ys : List Char} (before : ¬Plain c) (after : ¬Plain d) : Heads (c :: xs) (d :: ys)

theorem layout_head (u : List Char) (layout : Layout u) (some : u ≠ []) : ∃ c rest, u = c :: rest ∧ ¬Plain c := by
  cases layout with
  | nothing => exact absurd rfl some
  | @blank c rest blank => exact ⟨c, rest, rfl, fun plain => by rw [plain.1] at blank; cases blank⟩
  | @comment text rest => exact ⟨';', _, rfl, by decide⟩

theorem last_head (u : List Char) (last : LastLayout u) (some : u ≠ []) : ∃ c rest, u = c :: rest ∧ ¬Plain c := by
  cases last with
  | closed layout => exact layout_head u layout some
  | @opened u text layout =>
      cases u with
      | nil => exact ⟨';', text, rfl, by decide⟩
      | cons c u =>
          obtain ⟨d, rest, starts, noPlain⟩ := layout_head _ layout (List.cons_ne_nil c u)
          rw [starts]
          exact ⟨d, _, rfl, noPlain⟩

theorem retyped_heads (xs ys : List Char) (retyped : Retyped xs ys) : Heads xs ys := by
  cases retyped with
  | ended => exact .ended
  | plain plain same rest => exact .plain plain same rest
  | layout before after some other rest =>
      obtain ⟨c, u, rfl, noPlain⟩ := layout_head _ before some
      obtain ⟨d, v, rfl, notHere⟩ := layout_head _ after other
      exact .layout noPlain notHere
  | last before after some other =>
      obtain ⟨c, u, rfl, noPlain⟩ := last_head _ before some
      obtain ⟨d, v, rfl, notHere⟩ := last_head _ after other
      exact .layout noPlain notHere

theorem retyped_word (w v xs ys : List Char) (plain : (w.all fun c => Plain c) = true)
    (same : w.map Char.toLower = v.map Char.toLower) (rest : Retyped xs ys) : Retyped (w ++ xs) (v ++ ys) := by
  induction w generalizing v with
  | nil =>
      rw [List.map_eq_nil_iff.mp same.symm]
      exact rest
  | cons c w ih =>
      obtain ⟨d, v, rfl, first, others⟩ := List.map_eq_cons_iff.mp same.symm
      rw [List.all_cons, Bool.and_eq_true, decide_eq_true_eq] at plain
      exact .plain plain.1 first.symm (ih v plain.2 others.symm)

structure Steady (accepts : Char → Bool) : Prop where
  plain : ∀ c, accepts c = true → Plain c
  same : ∀ c d : Char, c.toLower = d.toLower → accepts c = accepts d

theorem steady_refuses (accepts : Char → Bool) (steady : Steady accepts) (c : Char) (layout : ¬Plain c) :
    accepts c = false := by
  by_contra accepted
  exact layout (steady.plain c (Bool.not_eq_false _ ▸ accepted))

theorem steady_class (accepts : Char → Bool) (refuses : layoutMarks.any accepts = false)
    (lower : ∀ c : Char, accepts c.toLower = accepts c) : Steady accepts where
  plain c accepted := by
    by_contra layout
    rw [not_plain_refused accepts refuses c layout] at accepted
    cases accepted
  same c d same := by rw [← lower c, same, lower d]

theorem steady_name_start : Steady isNameStart := steady_class isNameStart (by decide) name_start_lower

theorem steady_name_char : Steady isNameChar := steady_class isNameChar (by decide) name_char_lower

theorem steady_digit : Steady Char.isDigit := steady_class Char.isDigit (by decide) digit_lower

theorem digit_unchanged (c : Char) (digit : c.isDigit = true) : c.toLower = c := by
  refine Char.toLower_eq_of_not_isUpper fun upper => ?_
  rw [upper_no_digit c upper] at digit
  cases digit

theorem digit_same (c d : Char) (digit : c.isDigit = true) (other : d.isDigit = true) (same : c.toLower = d.toLower) :
    c = d := by
  rwa [digit_unchanged c digit, digit_unchanged d other] at same

def IsSign (c : Char) : Prop := Plain c ∧ c.isAlpha = false

instance : DecidablePred IsSign := fun c => inferInstanceAs (Decidable (Plain c ∧ c.isAlpha = false))

theorem steady_sign (ch : Char) (sign : IsSign ch) : Steady (· == ch) where
  plain c accepted := beq_iff_eq.mp accepted ▸ sign.1
  same c d same := by
    refine Bool.eq_iff_iff.mpr ?_
    rw [beq_iff_eq, beq_iff_eq, ← mark_lower c ch sign.2, same, mark_lower d ch sign.2]

theorem taken_retyped {γ : Type} (accepts : Char → Bool) (steady : Steady accepts) (view : Char → γ)
    (seen : ∀ c d : Char, accepts c = true → accepts d = true → c.toLower = d.toLower → view c = view d)
    (xs ys : List Char) (retyped : Retyped xs ys) :
    (xs.takeWhile accepts).map view = (ys.takeWhile accepts).map view ∧
      Retyped (xs.dropWhile accepts) (ys.dropWhile accepts) := by
  have stops (c d : Char) (xs ys : List Char) (first : accepts c = false) (second : accepts d = false)
      (retyped : Retyped (c :: xs) (d :: ys)) :
      ((c :: xs).takeWhile accepts).map view = ((d :: ys).takeWhile accepts).map view ∧
        Retyped ((c :: xs).dropWhile accepts) ((d :: ys).dropWhile accepts) := by
    simp only [List.takeWhile_cons, List.dropWhile_cons, first, second, Bool.false_eq_true, if_false]
    exact ⟨trivial, retyped⟩
  induction xs generalizing ys with
  | nil =>
      cases retyped_heads [] ys retyped
      exact ⟨rfl, .ended⟩
  | cons c xs ih =>
      cases retyped_heads (c :: xs) ys retyped with
      | @plain _ d _ ys plain same rest =>
          have alike := steady.same c d same
          cases accepted : accepts c with
          | true =>
              rw [accepted] at alike
              simp only [List.takeWhile_cons, List.dropWhile_cons, accepted, ← alike, if_true, List.map_cons]
              rw [seen c d accepted alike.symm same, (ih ys rest).1]
              exact ⟨rfl, (ih ys rest).2⟩
          | false => exact stops c d xs ys accepted (alike ▸ accepted) retyped
      | layout before after =>
          exact stops c _ xs _ (steady_refuses accepts steady c before) (steady_refuses accepts steady _ after) retyped

theorem stripped_retyped (mark xs ys : List Char) (plain : ∀ m ∈ mark, Plain m) (retyped : Retyped xs ys) :
    (Text.stripAnyCase? mark xs = none ∧ Text.stripAnyCase? mark ys = none) ∨
      ∃ xs' ys', Text.stripAnyCase? mark xs = some xs' ∧ Text.stripAnyCase? mark ys = some ys' ∧ Retyped xs' ys' := by
  induction mark generalizing xs ys with
  | nil => exact .inr ⟨xs, ys, by cases xs <;> rfl, by cases ys <;> rfl, retyped⟩
  | cons m mark ih =>
      obtain ⟨first, others⟩ := List.forall_mem_cons.mp plain
      cases retyped_heads xs ys retyped with
      | ended => exact .inl ⟨rfl, rfl⟩
      | @plain c d xs ys _ same rest =>
          rw [Text.stripAnyCase?, Text.stripAnyCase?, same]
          by_cases here : m = d.toLower
          · rw [if_pos here, if_pos here]
            exact ih xs ys others rest
          · rw [if_neg here, if_neg here]
            exact .inl ⟨rfl, rfl⟩
      | @layout c d xs ys before after =>
          have other (e : Char) (layout : ¬Plain e) : ¬m = e.toLower := by
            rintro rfl
            rw [not_plain_lower e layout] at first
            exact layout first
          rw [Text.stripAnyCase?, Text.stripAnyCase?, if_neg (other c before), if_neg (other d after)]
          exact .inl ⟨rfl, rfl⟩

end Replan.Source
