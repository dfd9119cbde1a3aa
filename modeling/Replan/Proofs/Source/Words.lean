import Mathlib.Data.List.Basic
import Replan.Proofs.Source.Reading
import Replan.Source.Lexeme

set_option autoImplicit false

namespace Replan.Source

open Replan.Source.Parser

def skip (rest : List Char) : List Char := afterBlanks false rest

def Ended (rest : List Char) : Prop := ∀ c ∈ rest.head?, c = ' ' ∨ c = ')' ∨ c = '\n'

def Closing (rest : List Char) : Prop := rest.head? = some ')'

def Solid (text : List Char) : Prop := ∃ c ∈ text.head?, isBlank c = false ∧ c ≠ ';'

instance : DecidablePred Solid := fun text =>
  decidable_of_iff ((text.head?.any fun c => !isBlank c && c != ';') = true) (by simp [Solid, Option.any_eq_true])

theorem solid_unless (refused : Char → Bool) (c : Char) (text : List Char) (first : text.head? = some c)
    (kept : refused c = false)
    (blanks : refused ' ' = true ∧ refused '\t' = true ∧ refused '\r' = true ∧ refused '\n' = true ∧ refused ';' = true) :
    Solid text := by
  have plain (d : Char) (other : refused d = true) : c ≠ d := by
    rintro rfl
    rw [kept] at other
    cases other
  obtain ⟨space, tab, feed, line, comment⟩ := blanks
  refine ⟨c, first, ?_, plain ';' comment⟩
  simp only [isBlank, Bool.or_eq_false_iff, beq_eq_false_iff_ne]
  exact ⟨⟨⟨plain ' ' space, plain '\t' tab⟩, plain '\r' feed⟩, plain '\n' line⟩

theorem closing_ended (rest : List Char) (closing : Closing rest) : Ended rest := by
  intro c first
  rw [closing] at first
  cases first
  exact .inr (.inl rfl)

theorem ended_spaced (rest : List Char) : Ended (' ' :: rest) := by
  intro c first
  cases first
  exact .inl rfl

theorem ended_lined (rest : List Char) : Ended ('\n' :: rest) := by
  intro c first
  cases first
  exact .inr (.inr rfl)

theorem ended_closed (rest : List Char) : Ended (')' :: rest) := closing_ended _ rfl

theorem skip_space (rest : List Char) : skip (' ' :: rest) = skip rest := rfl

theorem skip_line (rest : List Char) : skip ('\n' :: rest) = skip rest := rfl

theorem skip_solid (text rest : List Char) (solid : Solid text) : skip (text ++ rest) = text ++ rest := by
  obtain ⟨c, first, plain, noComment⟩ := solid
  cases text with
  | nil => cases first
  | cons d more =>
      cases first
      simp [skip, afterBlanks, plain, noComment]

theorem skip_le (rest : List Char) : (skip rest).length ≤ rest.length := by
  suffices ∀ inComment, (afterBlanks inComment rest).length ≤ rest.length from this false
  induction rest with
  | nil => simp [afterBlanks]
  | cons c rest ih =>
      intro inComment
      have shorter (b : Bool) : (afterBlanks b rest).length ≤ (c :: rest).length :=
        Nat.le_succ_of_le (ih b)
      rw [afterBlanks]
      split
      · exact shorter _
      · split
        · exact shorter _
        · split
          · exact shorter _
          · exact Nat.le_refl _

theorem ended_stops (accepts : Char → Bool) (space : accepts ' ' = false) (closing : accepts ')' = false)
    (line : accepts '\n' = false) (rest : List Char) (ended : Ended rest) : ∀ c ∈ rest.head?, accepts c = false := by
  intro c first
  rcases ended c first with rfl | rfl | rfl
  · exact space
  · exact closing
  · exact line

theorem taken_word (accepts : Char → Bool) (word rest : List Char) (all : ∀ c ∈ word, accepts c = true)
    (stops : ∀ c ∈ rest.head?, accepts c = false) :
    (word ++ rest).takeWhile accepts = word ∧ (word ++ rest).dropWhile accepts = rest := by
  rw [List.takeWhile_append_of_pos all, List.dropWhile_append_of_pos all]
  cases rest with
  | nil => simp
  | cons c rest => simp [stops c rfl]

variable {R α β : Type} {G : RequirementSet}

theorem at_place {rest : List Char} {known : Cursor → Prop}
    (each : ∀ offset inProblem, known ⟨rest, offset, inProblem, G⟩) : ∀ c, c.place = ⟨rest, G⟩ → known c := by
  rintro ⟨_, offset, inProblem, _⟩ same
  cases same
  exact each offset inProblem

theorem satisfy_reads (accepts : Char → Bool) (c : Char) (rest : List Char) (accepted : accepts c = true) :
    Reads (R := R) (satisfy accepts) ⟨c :: rest, G⟩ ⟨rest, G⟩ (· = c) := by
  refine at_place fun offset inProblem => ?_
  exact ⟨c, _, if_pos accepted, rfl, rfl⟩

theorem satisfy_misses (accepts : Char → Bool) (rest : List Char) (refused : ∀ c ∈ rest.head?, accepts c = false) :
    Misses (R := R) (satisfy accepts) ⟨rest, G⟩ := by
  refine at_place fun offset inProblem => ?_
  cases rest with
  | nil => exact ⟨_, rfl⟩
  | cons c rest => exact ⟨_, if_neg (by rw [refused c rfl]; exact Bool.false_ne_true)⟩

theorem take_while_reads (accepts : Char → Bool) (word rest : List Char) (all : ∀ c ∈ word, accepts c = true)
    (stops : ∀ c ∈ rest.head?, accepts c = false) :
    Reads (R := R) (takeWhile accepts) ⟨word ++ rest, G⟩ ⟨rest, G⟩ (· = word) := by
  obtain ⟨taken, dropped⟩ := taken_word accepts word rest all stops
  refine at_place fun offset inProblem => ?_
  exact ⟨_, _, rfl, taken, congrArg (fun rest => Place.mk rest G) dropped⟩

theorem blanks_reads (rest : List Char) :
    Reads (R := R) blanks ⟨rest, G⟩ ⟨skip rest, G⟩ (fun _ => True) := by
  refine at_place fun offset inProblem => ?_
  exact ⟨(), _, rfl, trivial, rfl⟩

theorem symbol_reads (c : Char) (rest : List Char) :
    Reads (R := R) (symbol c) ⟨c :: rest, G⟩ ⟨rest, G⟩ (fun _ => True) :=
  reads_then_pure (fun _ => ()) (satisfy_reads _ c rest (beq_self_eq_true c)) fun _ _ => trivial

theorem symbol_misses (c : Char) (rest : List Char) (other : rest.head? ≠ some c) :
    Misses (R := R) (symbol c) ⟨rest, G⟩ := by
  refine misses_bind (satisfy_misses _ rest fun d first => ?_)
  rw [beq_eq_false_iff_ne]
  rintro rfl
  exact other first

theorem sign_reads (c : Char) (rest : List Char) :
    Reads (R := R) (sign c) ⟨c :: rest, G⟩ ⟨skip rest, G⟩ (fun _ => True) :=
  reads_bind (symbol_reads c rest) fun _ _ => blanks_reads rest

theorem sign_misses (c : Char) (rest : List Char) (other : rest.head? ≠ some c) :
    Misses (R := R) (sign c) ⟨rest, G⟩ :=
  misses_bind (symbol_misses c rest other)

theorem not_followed_reads (accepts : Char → Bool) (rest : List Char) (refused : ∀ c ∈ rest.head?, accepts c = false) :
    Reads (R := R) (notFollowedBy accepts) ⟨rest, G⟩ ⟨rest, G⟩ (fun _ => True) := by
  refine at_place fun offset inProblem => ?_
  cases rest with
  | nil => exact ⟨(), _, rfl, trivial, rfl⟩
  | cons c rest => exact ⟨(), _, if_neg (by rw [refused c rfl]; exact Bool.false_ne_true), trivial, rfl⟩

theorem not_followed_misses (accepts : Char → Bool) (c : Char) (rest : List Char) (accepted : accepts c = true) :
    Misses (R := R) (notFollowedBy accepts) ⟨c :: rest, G⟩ := by
  refine at_place fun offset inProblem => ?_
  exact ⟨_, if_pos accepted⟩

theorem word_reads (w : String) (text rest : List Char) (stripped : Text.stripAnyCase? w.toList text = some rest) :
    Reads (R := R) (word w) ⟨text, G⟩ ⟨rest, G⟩ (fun _ => True) := by
  refine at_place fun offset inProblem => ?_
  exact ⟨(), _, by simp only [word, stripped]; rfl, trivial, rfl⟩

theorem word_misses (w : String) (text : List Char) (stripped : Text.stripAnyCase? w.toList text = none) :
    Misses (R := R) (word w) ⟨text, G⟩ := by
  refine at_place fun offset inProblem => ?_
  exact ⟨_, by simp only [word, stripped]; rfl⟩

def Lower (cs : List Char) : Prop := ∀ c ∈ cs, c.toLower = c

instance : DecidablePred Lower := fun cs =>
  decidable_of_iff ((cs.all fun c => c.toLower == c) = true) (by simp [Lower])

theorem strip_lower (mark rest : List Char) (lower : Lower mark) :
    Text.stripAnyCase? mark (mark ++ rest) = some rest := by
  induction mark with
  | nil => cases rest <;> rfl
  | cons c mark ih =>
      rw [List.cons_append, Text.stripAnyCase?, if_pos (lower c List.mem_cons_self).symm]
      exact ih fun d member => lower d (List.mem_cons_of_mem c member)

theorem stripped_letters (mark text rest : List Char) (stripped : Text.stripAnyCase? mark text = some rest) :
    ∃ letters, text = letters ++ rest ∧ letters.map Char.toLower = mark := by
  induction mark generalizing text with
  | nil =>
      rw [Text.stripAnyCase?, Option.some.injEq] at stripped
      exact ⟨[], stripped, rfl⟩
  | cons m mark ih =>
      cases text with
      | nil => cases stripped
      | cons c text =>
          rw [Text.stripAnyCase?] at stripped
          by_cases same : m = c.toLower
          · rw [if_pos same] at stripped
            obtain ⟨letters, split, lower⟩ := ih text stripped
            exact ⟨c :: letters, congrArg (c :: ·) split, by rw [List.map_cons, lower, same]⟩
          · rw [if_neg same] at stripped
            cases stripped

theorem strip_other (mark text rest : List Char) (lower : Lower text) (ended : Ended rest)
    (letters : ∀ c ∈ text, isNameChar c = true) (unbroken : ∀ c ∈ mark, c ≠ ' ' ∧ c ≠ ')' ∧ c ≠ '\n')
    (other : mark ≠ text) :
    Text.stripAnyCase? mark (text ++ rest) = none ∨
      ∃ c more, Text.stripAnyCase? mark (text ++ rest) = some (c :: more) ∧ isNameChar c = true := by
  induction mark generalizing text with
  | nil =>
      cases text with
      | nil => exact absurd rfl other
      | cons c text => exact .inr ⟨c, text ++ rest, rfl, letters c List.mem_cons_self⟩
  | cons m mark ih =>
      have here := unbroken m List.mem_cons_self
      cases text with
      | nil =>
          left
          cases rest with
          | nil => rfl
          | cons c rest =>
              rw [List.nil_append, Text.stripAnyCase?, if_neg]
              rcases ended c rfl with rfl | rfl | rfl
              · exact here.1
              · exact here.2.1
              · exact here.2.2
      | cons c text =>
          rw [List.cons_append, Text.stripAnyCase?, lower c List.mem_cons_self]
          by_cases same : m = c
          · subst same
            rw [if_pos rfl]
            exact ih text (fun d member => lower d (List.mem_cons_of_mem m member))
              (fun d member => letters d (List.mem_cons_of_mem m member))
              (fun d member => unbroken d (List.mem_cons_of_mem m member)) fun agree => other (by rw [agree])
          · exact .inl (if_neg same)

theorem begun_reads (w : String) (text rest : List Char) (stripped : Text.stripAnyCase? w.toList text = some rest)
    (stops : ∀ c ∈ rest.head?, isNameChar c = false) :
    Reads (R := R) (keyword w) ⟨text, G⟩ ⟨skip rest, G⟩ (fun _ => True) :=
  named_reads _ (reads_bind (word_reads w text rest stripped) fun _ _ =>
    reads_bind (not_followed_reads _ rest stops) fun _ _ => blanks_reads rest)

theorem keyword_reads (w : String) (rest : List Char) (lower : Lower w.toList) (ended : Ended rest) :
    Reads (R := R) (keyword w) ⟨w.toList ++ rest, G⟩ ⟨skip rest, G⟩ (fun _ => True) :=
  begun_reads w _ rest (strip_lower _ rest lower) (ended_stops _ (by decide) (by decide) (by decide) rest ended)

def Begins (w : String) (text : List Char) : Prop :=
  ∃ rest, Text.stripAnyCase? w.toList text = some rest ∧ ∀ c ∈ rest.head?, isNameChar c = false

theorem keyword_misses (w : String) (text : List Char) (other : ¬Begins w text) :
    Misses (R := R) (keyword w) ⟨text, G⟩ := by
  refine named_misses _ ?_
  cases stripped : Text.stripAnyCase? w.toList text with
  | none => exact misses_bind (word_misses w text stripped)
  | some rest =>
      refine misses_second (word_reads w text rest stripped) fun _ _ => misses_bind ?_
      cases rest with
      | nil => exact absurd ⟨[], stripped, by simp⟩ other
      | cons c rest =>
          refine not_followed_misses _ c rest ?_
          by_contra refused
          exact other ⟨c :: rest, stripped, by simpa using refused⟩

theorem keyword_misses_first (k : String) (m c : Char) (text : List Char) (mark : k.toList.head? = some m)
    (other : m ≠ c.toLower) : Misses (R := R) (keyword k) ⟨c :: text, G⟩ := by
  refine keyword_misses k _ ?_
  rintro ⟨rest, stripped, -⟩
  cases letters : k.toList with
  | nil => rw [letters] at mark; cases mark
  | cons d marks =>
      rw [letters] at mark stripped
      cases mark
      rw [Text.stripAnyCase?, if_neg other] at stripped
      cases stripped

structure IsWord (w : String) : Prop where
  lower : Lower w.toList
  letters : ∀ c ∈ w.toList.tail, isNameChar c = true
  solid : Solid w.toList
  inside : w.toList.head? ≠ some ')'

instance : DecidablePred IsWord := fun w =>
  decidable_of_iff (Lower w.toList ∧ (w.toList.tail.all isNameChar) = true ∧ Solid w.toList ∧ w.toList.head? ≠ some ')')
    ⟨fun word => ⟨word.1, List.all_eq_true.mp word.2.1, word.2.2.1, word.2.2.2⟩,
      fun word => ⟨word.lower, List.all_eq_true.mpr word.letters, word.solid, word.inside⟩⟩

def Unbroken (k : String) : Prop := k.toList ≠ [] ∧ ∀ c ∈ k.toList, c ≠ ' ' ∧ c ≠ ')' ∧ c ≠ '\n'

instance : DecidablePred Unbroken := fun k =>
  decidable_of_iff (k.toList ≠ [] ∧ (k.toList.all fun c => c != ' ' && c != ')' && c != '\n') = true)
    (by simp [Unbroken, and_assoc])

theorem keyword_misses_word (k w : String) (rest : List Char) (unbroken : Unbroken k) (word : IsWord w) (other : k ≠ w)
    (ended : Ended rest) : Misses (R := R) (keyword k) ⟨skip (w.toList ++ rest), G⟩ := by
  rw [skip_solid _ _ word.solid]
  refine keyword_misses k _ ?_
  rintro ⟨left, stripped, noLetter⟩
  have differ : k.toList ≠ w.toList := fun same => other (String.toList_inj.mp same)
  obtain ⟨lower, letters, solid, -⟩ := word
  cases first : w.toList with
  | nil =>
      obtain ⟨c, head, -⟩ := solid
      rw [first] at head
      cases head
  | cons c text =>
      cases mark : k.toList with
      | nil => exact unbroken.1 mark
      | cons m marks =>
          rw [first] at stripped lower letters differ
          rw [Unbroken, mark] at unbroken
          rw [mark] at stripped differ
          rw [List.cons_append, Text.stripAnyCase?, lower c List.mem_cons_self] at stripped
          by_cases same : m = c
          · subst same
            rw [if_pos rfl] at stripped
            rcases strip_other marks text rest (fun d member => lower d (List.mem_cons_of_mem m member)) ended letters
              (fun d member => unbroken.2 d (List.mem_cons_of_mem m member)) (fun agree => differ (by rw [agree])) with
              nothing | ⟨d, more, further, letter⟩
            · rw [nothing] at stripped
              cases stripped
            · rw [further] at stripped
              cases stripped
              rw [noLetter d rfl] at letter
              cases letter
          · rw [if_neg same] at stripped
            cases stripped

def IsName (n : String) : Prop :=
  n.toList.head?.any isNameStart = true ∧ ∀ c ∈ n.toList, isNameChar c = true ∧ c.toLower = c

instance : DecidablePred IsName := fun n =>
  decidable_of_iff (n.toList.head?.any isNameStart = true ∧ (n.toList.all fun c => isNameChar c && c.toLower == c) = true)
    (by simp [IsName])

theorem name_start_char (c : Char) (start : isNameStart c = true) : isNameChar c = true := by
  simp only [isNameStart, isNameChar, Bool.or_eq_true] at start ⊢
  rcases start with letter | underscore
  · exact .inl (.inl letter)
  · exact .inr underscore

theorem letters_read (first : Char) (more rest : List Char) (start : isNameStart first = true)
    (letters : ∀ c ∈ more, isNameChar c = true) (stops : ∀ c ∈ rest.head?, isNameChar c = false) :
    Reads (R := R) name ⟨first :: (more ++ rest), G⟩ ⟨skip rest, G⟩
      (fun entry => entry.2 = lowered (first :: more)) := by
  refine reads_bind (cursor_reads _) fun _ _ => ?_
  refine reads_bind (named_reads _ (satisfy_reads isNameStart first _ start)) fun _ here => ?_
  refine reads_bind (take_while_reads isNameChar more rest letters stops) fun _ others => ?_
  refine reads_bind (cursor_reads _) fun _ _ => reads_bind (blanks_reads rest) fun _ _ => reads_pure _ _ ?_
  rw [here, others]

theorem name_reads (n : String) (rest : List Char) (isName : IsName n) (ended : Ended rest) :
    Reads (R := R) name ⟨n.toList ++ rest, G⟩ ⟨skip rest, G⟩ (fun entry => entry.2 = n) := by
  obtain ⟨start, letters⟩ := isName
  cases first : n.toList with
  | nil => rw [first] at start; cases start
  | cons c more =>
      rw [first] at start letters
      refine reads_weaken (letters_read c more rest start (fun d member => (letters d (List.mem_cons_of_mem _ member)).1)
        (ended_stops _ (by decide) (by decide) (by decide) rest ended)) fun entry found => ?_
      have same : (c :: more).map Char.toLower = c :: more :=
        (List.map_congr_left fun d member => (letters d member).2).trans (List.map_id _)
      rw [found, lowered, same, ← first, String.ofList_toList]

end Replan.Source
