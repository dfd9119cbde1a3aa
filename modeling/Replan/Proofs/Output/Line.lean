import Mathlib
import Replan.Output.Line
import Replan.Proofs.Source.Words

set_option autoImplicit false

namespace Replan.Output

section Lines

def OneLine (l : List Char) : Prop := ∀ c ∈ l, c ≠ '\n' ∧ c ≠ '\r'

instance : DecidablePred OneLine := fun l =>
  decidable_of_iff ((l.all fun c => c != '\n' && c != '\r') = true) (by simp [OneLine])

theorem lines_char (c : Char) (rest line : List Char) (more : List (List Char)) (other : c ≠ '\n')
    (within : c = '\r' → rest.head? ≠ some '\n') (split : lines rest = line :: more) :
    lines (c :: rest) = (c :: line) :: more := by
  rw [lines, split]
  · exact other
  · intro more returns ends
    exact within returns (by rw [ends]; rfl)

theorem lines_single (c : Char) (other : c ≠ '\n') : lines [c] = [[c]] := by
  rw [lines, lines]
  · exact other
  · intro more _ ends
    cases ends

theorem lines_line (l rest : List Char) (whole : OneLine l) : lines (l ++ '\n' :: rest) = l :: lines rest := by
  induction l with
  | nil => rw [List.nil_append, lines]
  | cons c l ih =>
      obtain ⟨⟨other, within⟩, others⟩ := List.forall_mem_cons.mp whole
      exact lines_char c _ l _ other (fun returns => absurd returns within) (ih others)

theorem lines_last (l rest : List Char) (whole : OneLine l) (nonempty : l ≠ []) (ended : ∀ c ∈ rest.head?, c = '\n') :
    ∃ more, lines (l ++ rest) = l :: more := by
  cases rest with
  | cons c rest =>
      obtain rfl := ended c rfl
      exact ⟨lines rest, lines_line l rest whole⟩
  | nil =>
      refine ⟨[], ?_⟩
      rw [List.append_nil]
      induction l with
      | nil => exact absurd rfl nonempty
      | cons c l ih =>
          obtain ⟨⟨other, within⟩, others⟩ := List.forall_mem_cons.mp whole
          by_cases last : l = []
          · rw [last, lines_single c other]
          · exact lines_char c l l [] other (fun returns => absurd returns within) (ih others last)

theorem lines_rest (l rest : List Char) (unended : '\n' ∉ l) :
    ∃ line, lines (l ++ '\n' :: rest) = line :: lines rest := by
  induction l with
  | nil => exact ⟨[], by rw [List.nil_append, lines]⟩
  | cons c l ih =>
      obtain ⟨other, others⟩ := not_or.mp (List.mem_cons.not.mp unended)
      obtain ⟨line, split⟩ := ih others
      by_cases returns : c = '\r' ∧ l = []
      · obtain ⟨rfl, rfl⟩ := returns
        exact ⟨[], by rw [List.singleton_append, lines]⟩
      · refine ⟨c :: line, lines_char c _ line _ (fun same => other same.symm) (fun carriage ends => ?_) split⟩
        cases l with
        | nil => exact returns ⟨carriage, rfl⟩
        | cons d l => exact others (List.mem_cons.mpr (.inl (Option.some.inj ends).symm))

end Lines

section Marks

theorem from_some (mark cs rest : List Char) (found : from? mark cs = some rest) : mark <+: rest ∧ rest <:+ cs := by
  induction cs with
  | nil =>
      rw [from?] at found
      split at found
      · cases found
        exact ⟨by simp_all, List.suffix_rfl⟩
      · cases found
  | cons c cs ih =>
      rw [from?] at found
      split at found
      · cases found
        exact ⟨List.isPrefixOf_iff_prefix.mp ‹_›, List.suffix_rfl⟩
      · obtain ⟨here, after⟩ := ih found
        exact ⟨here, after.trans (List.suffix_cons c cs)⟩

theorem from_none_iff (mark cs : List Char) : from? mark cs = none ↔ ¬mark <:+: cs := by
  induction cs with
  | nil => simp [from?, List.infix_nil]
  | cons c cs ih =>
      rw [from?, List.infix_cons_iff, ← List.isPrefixOf_iff_prefix]
      by_cases here : mark.isPrefixOf (c :: cs) = true
      · simp [here]
      · simp [here, ih]

theorem contains_iff (mark cs : List Char) : contains mark cs = true ↔ mark <:+: cs := by
  rw [contains, Option.isSome_iff_ne_none, Ne, from_none_iff, not_not]

theorem contains_none (mark cs : List Char) (absent : ¬mark <:+: cs) : contains mark cs = false :=
  Bool.eq_false_iff.mpr ((contains_iff mark cs).not.mpr absent)

theorem strip_iff (mark text rest : List Char) : Text.strip? mark text = some rest ↔ text = mark ++ rest := by
  induction mark generalizing text with
  | nil => simp [Text.strip?]
  | cons m mark ih =>
      cases text with
      | nil => simp [Text.strip?]
      | cons c text =>
          rw [Text.strip?]
          by_cases same : m = c
          · simp [same, ih]
          · simp [same, Ne.symm same]

theorem mark_within (mark line rest : List Char) (inLine : '\n' ∉ mark) (here : mark <+: line ++ '\n' :: rest) :
    mark <+: line := by
  rcases List.prefix_or_prefix_of_prefix here (List.prefix_append line ('\n' :: rest)) with within | beyond
  · exact within
  · obtain ⟨more, rfl⟩ := beyond
    rw [List.prefix_append_right_inj] at here
    cases more with
    | nil => rw [List.append_nil]
    | cons c more =>
        obtain rfl := (List.cons_prefix_cons.mp here).1
        exact absurd (List.mem_append_right line List.mem_cons_self) inLine

theorem from_later (mark line rest : List Char) (nonempty : mark ≠ []) (inLine : '\n' ∉ mark) (absent : ¬mark <:+: line) :
    from? mark (line ++ '\n' :: rest) = from? mark rest := by
  have passed (l : List Char) (missing : ¬mark <+: l) : ¬mark.isPrefixOf (l ++ '\n' :: rest) = true :=
    fun here => missing (mark_within mark l rest inLine (List.isPrefixOf_iff_prefix.mp here))
  induction line with
  | nil =>
      rw [List.nil_append, from?]
      exact if_neg (passed [] (List.prefix_nil.not.mpr nonempty))
  | cons c line ih =>
      obtain ⟨missing, others⟩ := not_or.mp (List.infix_cons_iff.not.mp absent)
      rw [List.cons_append, from?]
      exact (if_neg (passed (c :: line) missing)).trans (ih others)

theorem from_here (mark line rest : List Char) (unended : '\n' ∉ line) (present : mark <:+: line) :
    ∃ l, from? mark (line ++ '\n' :: rest) = some (l ++ '\n' :: rest) ∧ '\n' ∉ l := by
  induction line with
  | nil => exact ⟨[], by simp [List.infix_nil.mp present, from?], List.not_mem_nil⟩
  | cons c line ih =>
      rw [List.cons_append, from?]
      by_cases here : mark.isPrefixOf (c :: (line ++ '\n' :: rest)) = true
      · exact ⟨c :: line, if_pos here, unended⟩
      · have later : mark <:+: line := (List.infix_cons_iff.mp present).resolve_left fun first =>
          here (List.isPrefixOf_iff_prefix.mpr (first.trans (List.prefix_append _ _)))
        obtain ⟨l, found, whole⟩ := ih (fun member => unended (List.mem_cons_of_mem _ member)) later
        exact ⟨l, (if_neg here).trans found, whole⟩

end Marks

section Spaces

def Blank (cs : List Char) : Prop := ∀ c ∈ cs, c = ' ' ∨ c = '\t'

instance : DecidablePred Blank := fun cs =>
  decidable_of_iff ((cs.all fun c => c == ' ' || c == '\t') = true) (by simp [Blank])

theorem skip_spaces (margin rest : List Char) (blank : Blank margin) (stops : ∀ c ∈ rest.head?, c ≠ ' ' ∧ c ≠ '\t') :
    skipSpaces (margin ++ rest) = rest :=
  (Source.taken_word _ margin rest (fun c member => by simpa using blank c member)
    fun c first => by simpa using stops c first).2

theorem spaces_skipped (cs : List Char) : ∃ margin, Blank margin ∧ cs = margin ++ skipSpaces cs :=
  ⟨cs.takeWhile fun c => c == ' ' || c == '\t',
    fun c member => by simpa using List.all_eq_true.mp List.all_takeWhile c member,
    List.takeWhile_append_dropWhile.symm⟩

theorem labelled_some (label : String) (line : List Char) (found : Float × List Char)
    (labelled : labelled? label line = some found) :
    ∃ margin rest, Blank margin ∧ line = margin ++ label.toList ++ rest := by
  obtain ⟨rest, stripped, -⟩ := Option.bind_eq_some_iff.mp labelled
  obtain ⟨margin, blank, split⟩ := spaces_skipped line
  rw [strip_iff] at stripped
  exact ⟨margin, rest, blank, by rw [split, stripped, List.append_assoc]⟩

theorem labelled_none (label : String) (line : List Char) (absent : ¬label.toList <:+: line) :
    labelled? label line = none := by
  cases labelled : labelled? label line with
  | none => rfl
  | some found =>
      obtain ⟨margin, rest, -, shape⟩ := labelled_some label line found labelled
      exact absurd ⟨margin, rest, shape.symm⟩ absent

theorem labelled_number (label : String) (margin gap number : List Char) (x : Float) (blank : Blank margin)
    (blankToo : Blank gap) (begins : ∀ c ∈ (label.toList ++ (gap ++ number)).head?, c ≠ ' ' ∧ c ≠ '\t')
    (starts : ∀ c ∈ number.head?, c ≠ ' ' ∧ c ≠ '\t') (written : number? number = some (x, [])) :
    labelled? label (margin ++ (label.toList ++ (gap ++ number))) = some (x, []) := by
  rw [labelled?, skip_spaces margin _ blank begins, (strip_iff _ _ _).mpr rfl, Option.bind_some,
    skip_spaces gap number blankToo starts, written]

end Spaces

section Words

theorem words_space (rest : List Char) : words (' ' :: rest) = words rest := by
  cases rest with
  | nil => rfl
  | cons c rest => rfl

def OneWord (w : List Char) : Prop := w ≠ [] ∧ ∀ c ∈ w, isWhite c = false

theorem words_word (w rest : List Char) (word : OneWord w) (ended : ∀ c ∈ rest.head?, isWhite c = true) :
    words (w ++ rest) = w :: words rest := by
  obtain ⟨nonempty, plain⟩ := word
  induction w with
  | nil => exact absurd rfl nonempty
  | cons c w ih =>
      obtain ⟨here, others⟩ := List.forall_mem_cons.mp plain
      cases w with
      | nil =>
          cases rest with
          | nil => simp [words, here]
          | cons d rest => simp [words, here, ended d rfl]
      | cons d w =>
          rw [List.cons_append, List.cons_append, words, if_neg (by simp [here]), if_neg (by simp [others d]),
            ← List.cons_append,
            ih (List.cons_ne_nil _ _) others]

theorem words_spaced (w : List Char) (ws : List (List Char)) (each : ∀ u ∈ w :: ws, OneWord u) :
    words (w ++ ws.flatMap (' ' :: ·)) = w :: ws := by
  induction ws generalizing w with
  | nil => simpa [words] using words_word w [] (each w List.mem_cons_self) nofun
  | cons v ws ih =>
      obtain ⟨word, others⟩ := List.forall_mem_cons.mp each
      rw [List.flatMap_cons, List.cons_append, words_word w _ word (by simp [isWhite]), words_space, ih v others]

theorem trim_start_none (cs : List Char) (starts : ∀ c ∈ cs.head?, isWhite c = false) : trimStart cs = cs := by
  cases cs with
  | nil => rfl
  | cons c cs => rw [trimStart, List.dropWhile_cons_of_neg (by simp [starts c rfl])]

theorem trim_none (cs : List Char) (starts : ∀ c ∈ cs.head?, isWhite c = false)
    (stops : ∀ c ∈ cs.getLast?, isWhite c = false) : trim cs = cs := by
  rw [trim, trim_start_none cs starts, trim_start_none cs.reverse (by rwa [List.head?_reverse]), List.reverse_reverse]

end Words

end Replan.Output
