import Replan.Proofs.Output.Numbers

set_option autoImplicit false

namespace Replan.Output

def InAnyCase (w : String) : Prop := Source.IsName (Source.lowered w.toList)

instance : DecidablePred InAnyCase := fun w => inferInstanceAs (Decidable (Source.IsName (Source.lowered w.toList)))

def Named (step : Ground) : Prop := ∀ w ∈ step.name :: step.args, InAnyCase w

instance : DecidablePred Named := fun step =>
  inferInstanceAs (Decidable (∀ w ∈ step.name :: step.args, InAnyCase w))

def lower (step : Ground) : Ground :=
  ⟨Source.lowered step.name.toList, step.args.map fun w => Source.lowered w.toList⟩

def wording (step : Ground) : String := step.name ++ String.join (step.args.map (" " ++ ·))

section Wording

theorem any_case_visible (w : String) (named : InAnyCase w) : w.toList ≠ [] ∧ ∀ c ∈ w.toList, Visible c := by
  rw [InAnyCase, Source.IsName, Source.lowered, String.toList_ofList] at named
  obtain ⟨starts, letters⟩ := named
  constructor
  · intro empty
    rw [empty] at starts
    cases starts
  · intro c member
    rw [Visible, ← Source.name_char_lower]
    exact .inl (letters _ (List.mem_map_of_mem member)).1

theorem any_case_word (w : String) (named : InAnyCase w) : OneWord w.toList :=
  ⟨(any_case_visible w named).1, fun c member => visible_not_white c ((any_case_visible w named).2 c member)⟩

theorem wording_list (step : Ground) :
    (wording step).toList = step.name.toList ++ (step.args.map String.toList).flatMap (' ' :: ·) := by
  rw [wording, String.toList_append, String.toList_join]
  simp [List.flatMap_map, String.toList_append]

variable {step : Ground} (named : Named step)
include named

theorem wording_starts : ∀ c ∈ (wording step).toList.head?, Visible c := by
  intro c first
  obtain ⟨nonempty, visible⟩ := any_case_visible step.name (named _ List.mem_cons_self)
  rw [wording_list, List.head?_append_of_ne_nil _ nonempty] at first
  exact visible c (List.mem_of_mem_head? first)

theorem wording_some : (wording step).toList ≠ [] := by
  rw [wording_list]
  exact List.append_ne_nil_of_left_ne_nil (any_case_visible step.name (named _ List.mem_cons_self)).1 _

theorem wording_char (c : Char) (member : c ∈ (wording step).toList) : Visible c ∨ c = ' ' := by
  rw [wording_list, List.mem_append, List.mem_flatMap] at member
  rcases member with inName | ⟨w, word, inWord⟩
  · exact .inl ((any_case_visible step.name (named _ List.mem_cons_self)).2 c inName)
  · obtain ⟨arg, listed, rfl⟩ := List.mem_map.mp word
    rcases List.mem_cons.mp inWord with rfl | inArg
    · exact .inr rfl
    · exact .inl ((any_case_visible arg (named _ (List.mem_cons_of_mem _ listed))).2 c inArg)

theorem step_of_wording : step? (wording step).toList = some (lower step) := by
  have separate : ∀ u ∈ step.name.toList :: step.args.map String.toList, OneWord u := by
    rw [← List.map_cons (f := String.toList), List.forall_mem_map]
    exact fun w listed => any_case_word w (named w listed)
  rw [step?, wording_list, words_spaced _ _ separate]
  simp [lower, Source.lowered]

end Wording

def printed (ls : List String) : String := String.join (ls.map (· ++ "\n"))

structure Headline (mark : String) (earlier : List String) (line : String) : Prop where
  first : ∀ l ∈ earlier, ¬mark.toList <:+: l.toList
  present : mark.toList <:+: line.toList
  whole : '\n' ∉ line.toList

section Printed

theorem printed_cons (l : String) (ls : List String) (rest : String) :
    (printed (l :: ls) ++ rest).toList = l.toList ++ '\n' :: (printed ls ++ rest).toList := by
  simp [printed, String.toList_append, String.toList_join]

theorem lines_printed (ls : List String) (last rest : String) (whole : ∀ l ∈ ls, OneLine l.toList)
    (wholeToo : OneLine last.toList) (nonempty : last.toList ≠ []) (ended : ∀ c ∈ rest.toList.head?, c = '\n') :
    ∃ more, lines (printed ls ++ (last ++ rest)).toList = ls.map String.toList ++ last.toList :: more := by
  induction ls with
  | nil =>
      have nothing : (printed [] ++ (last ++ rest)).toList = last.toList ++ rest.toList := by
        simp [printed, String.toList_append]
      rw [nothing]
      exact lines_last last.toList rest.toList wholeToo nonempty ended
  | cons l ls ih =>
      obtain ⟨here, others⟩ := List.forall_mem_cons.mp whole
      obtain ⟨more, split⟩ := ih others
      exact ⟨more, by rw [printed_cons, lines_line _ _ here, split]; rfl⟩

theorem headline_found (mark : String) (earlier : List String) (line rest : String) (nonempty : mark.toList ≠ [])
    (inLine : '\n' ∉ mark.toList) (headline : Headline mark earlier line) :
    ∃ body, from? mark.toList (printed (earlier ++ [line]) ++ rest).toList = some body ∧
      (lines body).drop 1 = lines rest.toList := by
  obtain ⟨first, present, whole⟩ := headline
  induction earlier with
  | nil =>
      obtain ⟨l, found, wholeToo⟩ := from_here mark.toList line.toList rest.toList whole present
      obtain ⟨dropped, split⟩ := lines_rest l rest.toList wholeToo
      have only : (printed [] ++ rest).toList = rest.toList := by simp [printed]
      refine ⟨l ++ '\n' :: rest.toList, ?_, by rw [split, List.drop_one, List.tail_cons]⟩
      rw [List.nil_append, printed_cons, only]
      exact found
  | cons l earlier ih =>
      obtain ⟨absent, others⟩ := List.forall_mem_cons.mp first
      rw [List.cons_append, printed_cons, from_later _ _ _ nonempty inLine absent]
      exact ih others

end Printed

end Replan.Output
