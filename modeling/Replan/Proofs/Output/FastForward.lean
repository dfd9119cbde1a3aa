import Replan.Output.FastForward
import Replan.Proofs.Names
import Replan.Proofs.Output.Steps

set_option autoImplicit false

namespace Replan.Output.FastForward

def Label (s : String) : Prop :=
  Blank s.toList ∨ ∃ margin gap, Blank margin ∧ Blank gap ∧ s.toList = margin ++ ("step".toList ++ gap)

inductive Prints : Plan → List String → Prop
  | done : Prints [] []
  | blank {plan : Plan} {ls : List String} (spaces : String) (blank : Blank spaces.toList) (rest : Prints plan ls) :
      Prints plan (spaces :: ls)
  | step {plan : Plan} {ls : List String} (label : String) (k : Nat) (g : Ground) (labelled : Label label)
      (rest : Prints plan ls) : Prints (g :: plan) ((label ++ toString k ++ ": " ++ wording g) :: ls)

-- The line after the plan gives its cost, or it is about time, and then every step counts one.
inductive Ends (plan : Plan) : Float → String → Prop
  | cost (margin number : String) (x : Float) (blank : Blank margin.toList) (denotes : Denotes number.toList x) :
      Ends plan x (margin ++ "plan cost: " ++ number)
  | times (before after : String) (uncoloned : ':' ∉ before.toList) (whole : OneLine before.toList)
      (wholeToo : OneLine after.toList) : Ends plan (Number.ofNat plan.length) (before ++ "time spent" ++ after)

inductive Report (plan : Plan) (cost : Float) : String → Prop
  | mk (earlier : List String) (line : String) (steps : List String) (last rest : String)
      (headline : Headline "ff: found legal plan as follows" earlier line) (prints : Prints plan steps)
      (ends : Ends plan cost last) (ended : ∀ c ∈ rest.toList.head?, c = '\n') :
      Report plan cost (printed (earlier ++ [line]) ++ (printed steps ++ (last ++ rest)))

section Lines

def Numbering (c : Char) : Prop := c = ' ' ∨ c = '\t' ∨ c ∈ "step".toList ∨ c.isDigit = true

theorem blank_numbering (cs : List Char) (blank : Blank cs) : ∀ c ∈ cs, Numbering c := fun c member =>
  (blank c member).elim .inl fun tab => .inr (.inl tab)

theorem numbering_line (c : Char) (numbering : Numbering c) : c ≠ '\n' ∧ c ≠ '\r' := by
  constructor <;> rintro rfl <;> simp [Numbering] at numbering

theorem label_numbering (s : String) (label : Label s) : ∀ c ∈ s.toList, Numbering c := by
  rcases label with blank | ⟨margin, gap, blank, blankToo, shape⟩
  · exact blank_numbering _ blank
  · simp only [shape, List.forall_mem_append]
    exact ⟨blank_numbering _ blank, fun c member => .inr (.inr (.inl member)), blank_numbering _ blankToo⟩

theorem step_text_some (line text : List Char) (found : stepText? line = some text) :
    ∃ before after, line = before ++ ':' :: after ∧ ∀ c ∈ before, Numbering c := by
  obtain ⟨margin, blank, shape⟩ := spaces_skipped line
  have word : ∃ label, skipSpaces line = label ++ (Text.strip? "step".toList (skipSpaces line)).getD (skipSpaces line) ∧
      ∀ c ∈ label, Numbering c := by
    cases stripped : Text.strip? "step".toList (skipSpaces line) with
    | none => exact ⟨[], rfl, nofun⟩
    | some rest => exact ⟨"step".toList, (strip_iff _ _ _).mp stripped, fun c member => .inr (.inr (.inl member))⟩
  obtain ⟨label, second, letters⟩ := word
  rw [stepText?] at found
  generalize (Text.strip? "step".toList (skipSpaces line)).getD (skipSpaces line) = afterWord at found second
  obtain ⟨gap, blankToo, third⟩ := spaces_skipped afterWord
  split at found
  · rename_i d ds rest digits colon
    have number := List.takeWhile_append_dropWhile (p := Char.isDigit) (l := skipSpaces afterWord)
    have all : ∀ c ∈ (skipSpaces afterWord).takeWhile Char.isDigit, Numbering c := fun c member =>
      .inr (.inr (.inr (List.all_eq_true.mp List.all_takeWhile c member)))
    rw [colon] at number
    refine ⟨margin ++ (label ++ (gap ++ (skipSpaces afterWord).takeWhile Char.isDigit)), rest, ?_, ?_⟩
    · rw [List.append_assoc, List.append_assoc, List.append_assoc, number, ← third, ← second]
      exact shape
    · simp only [List.forall_mem_append]
      exact ⟨blank_numbering margin blank, letters, blank_numbering gap blankToo, all⟩
  · cases found

theorem reaches_colon (before after numbers rest : List Char) (uncoloned : ':' ∉ before)
    (same : before ++ after = numbers ++ ':' :: rest) : before ⊆ numbers := by
  rcases List.append_eq_append_iff.mp same with ⟨more, rfl, -⟩ | ⟨more, rfl, ends⟩
  · exact List.subset_append_left before more
  · cases more with
    | nil => exact (List.append_nil numbers).symm ▸ List.Subset.refl numbers
    | cons c more =>
        obtain ⟨rfl, -⟩ := List.cons.inj ends
        exact absurd (List.mem_append_right numbers List.mem_cons_self) uncoloned

theorem no_step_text (before after : List Char) (c : Char) (uncoloned : ':' ∉ before) (member : c ∈ before)
    (other : ¬Numbering c) : stepText? (before ++ after) = none := by
  cases found : stepText? (before ++ after) with
  | none => rfl
  | some text =>
      obtain ⟨numbers, rest, same, numbering⟩ := step_text_some _ text found
      exact absurd (numbering c (reaches_colon before after numbers rest uncoloned same member)) other

theorem label_skipped (label : String) (d : Char) (rest : List Char) (labelled : Label label) (digit : d.isDigit = true) :
    skipSpaces ((Text.strip? "step".toList (skipSpaces (label.toList ++ d :: rest))).getD
      (skipSpaces (label.toList ++ d :: rest))) = d :: rest := by
  have stops : ∀ c ∈ (d :: rest).head?, c ≠ ' ' ∧ c ≠ '\t' := by
    intro c first
    cases first
    constructor <;> rintro rfl <;> cases digit
  rcases labelled with blank | ⟨margin, gap, blank, blankToo, shape⟩
  · have other : Text.strip? "step".toList (d :: rest) = none := by
      have letter : 's' ≠ d := by
        rintro rfl
        cases digit
      simp [Text.strip?, letter]
    rw [skip_spaces label.toList _ blank stops, other, Option.getD_none]
    exact skip_spaces [] _ (List.forall_mem_nil _) stops
  · have word : label.toList ++ d :: rest = margin ++ ("step".toList ++ (gap ++ d :: rest)) := by simp [shape]
    rw [word, skip_spaces margin _ blank (by simp), (strip_iff _ _ _).mpr rfl, Option.getD_some]
    exact skip_spaces gap _ blankToo stops

theorem step_text_of_line (label : String) (k : Nat) (text : List Char) (labelled : Label label)
    (starts : ∀ c ∈ text.head?, c ≠ ' ' ∧ c ≠ '\t') :
    stepText? (label.toList ++ ((toString k).toList ++ ':' :: ' ' :: text)) = some text := by
  have digits := Names.digits_of_number k
  obtain ⟨d, ds, number⟩ := List.exists_cons_of_ne_nil (Names.number_nonempty k)
  rw [number] at digits ⊢
  obtain ⟨taken, dropped⟩ := Source.taken_word Char.isDigit (d :: ds) (':' :: ' ' :: text) digits (by simp)
  rw [stepText?, List.cons_append, label_skipped label d _ labelled (digits d List.mem_cons_self), ← List.cons_append,
    taken, dropped]
  exact congrArg some (skip_spaces [' '] text (by simp [Blank]) starts)

theorem read_blank (spaces : String) (rest : List (List Char)) (blank : Blank spaces.toList) :
    steps? (spaces.toList :: rest) = steps? rest := by
  have absent (mark : List Char) (c : Char) (member : c ∈ mark) (other : c ≠ ' ' ∧ c ≠ '\t') :
      ¬mark <:+: spaces.toList := fun inside =>
    (blank c (inside.subset member)).elim other.1 other.2
  have noStep : stepText? spaces.toList = none := by
    cases found : stepText? spaces.toList with
    | none => rfl
    | some text =>
        obtain ⟨before, after, shape, -⟩ := step_text_some _ text found
        have colon : [':'] <:+: spaces.toList := ⟨before, after, by rw [shape, List.append_assoc]; rfl⟩
        exact absurd colon (absent [':'] ':' List.mem_cons_self (by decide))
  have noCost := labelled_none "plan cost:" _ (absent "plan cost:".toList 'p' (by simp) (by decide))
  have noTimes := contains_none _ _ (absent "time spent".toList 't' (by simp) (by decide))
  rw [steps?, noStep, noCost]
  simp only [noTimes]
  rfl

theorem read_step (label : String) (k : Nat) (g : Ground) (rest : List (List Char)) (labelled : Label label)
    (named : Named g) :
    steps? ((label ++ toString k ++ ": " ++ wording g).toList :: rest) =
      (steps? rest).map fun (plan, cost) => (lower g :: plan, cost) := by
  have line : (label ++ toString k ++ ": " ++ wording g).toList =
      label.toList ++ ((toString k).toList ++ ':' :: ' ' :: (wording g).toList) := by
    simp [String.toList_append]
  rw [line, steps?, step_text_of_line label k _ labelled fun c first => visible_stops c (wording_starts named c first)]
  simp only [step_of_wording named]

theorem read_cost (margin number : String) (x : Float) (more : List (List Char)) (blank : Blank margin.toList)
    (denotes : Denotes number.toList x) :
    steps? ((margin ++ "plan cost: " ++ number).toList :: more) = some ([], some x) := by
  have line : (margin ++ "plan cost: " ++ number).toList =
      margin.toList ++ ("plan cost:".toList ++ ([' '] ++ number.toList)) := by
    simp [String.toList_append]
  have split : margin.toList ++ ("plan cost:".toList ++ ([' '] ++ number.toList)) =
      (margin.toList ++ "plan cost".toList) ++ (':' :: ' ' :: number.toList) := by
    simp
  have uncoloned : ':' ∉ margin.toList ++ "plan cost".toList := by
    rw [List.mem_append]
    exact not_or.mpr ⟨fun member => by simpa using blank ':' member, by simp⟩
  have starts : ∀ c ∈ number.toList.head?, c ≠ ' ' ∧ c ≠ '\t' := fun c first =>
    visible_stops c ((denotes_text _ x denotes).2.1 c (List.mem_of_mem_head? first))
  have noStep := no_step_text (margin.toList ++ "plan cost".toList) (':' :: ' ' :: number.toList) 'c' uncoloned (by simp)
    (by simp [Numbering])
  rw [line, steps?, split, noStep, ← split,
    labelled_number "plan cost:" margin.toList [' '] number.toList x blank (by simp [Blank]) (by simp) starts denotes]

theorem read_times (before after : String) (more : List (List Char)) (uncoloned : ':' ∉ before.toList) :
    steps? ((before ++ "time spent" ++ after).toList :: more) = some ([], none) := by
  have line : (before ++ "time spent" ++ after).toList = (before.toList ++ "time spent".toList) ++ after.toList := by
    simp [String.toList_append]
  have noColon : ':' ∉ before.toList ++ "time spent".toList := by
    rw [List.mem_append]
    exact not_or.mpr ⟨uncoloned, by simp⟩
  have noStep := no_step_text _ after.toList 'm' noColon (by simp) (by simp [Numbering])
  have noCost : labelled? "plan cost:" ((before.toList ++ "time spent".toList) ++ after.toList) = none := by
    cases labelled : labelled? "plan cost:" ((before.toList ++ "time spent".toList) ++ after.toList) with
    | none => rfl
    | some found =>
        obtain ⟨margin, rest, blank, same⟩ := labelled_some _ _ _ labelled
        have label : margin ++ "plan cost:".toList ++ rest = (margin ++ "plan cost".toList) ++ ':' :: rest := by simp
        have inside := reaches_colon _ _ _ rest noColon (same.trans label)
        have letter : 'm' ∈ margin ++ "plan cost".toList := inside (List.mem_append_right _ (by simp))
        rw [List.mem_append] at letter
        exact absurd letter (not_or.mpr ⟨fun member => by simpa using blank 'm' member, by simp⟩)
  have present : contains "time spent".toList ((before.toList ++ "time spent".toList) ++ after.toList) = true :=
    (contains_iff _ _).mpr (List.infix_append _ _ _)
  rw [line, steps?, noStep, noCost]
  simp only [present, if_true]

theorem read_last (plan : Plan) (cost : Float) (last : String) (more : List (List Char)) (ends : Ends plan cost last) :
    ∃ given, steps? (last.toList :: more) = some ([], given) ∧ given.getD (Number.ofNat plan.length) = cost := by
  cases ends with
  | cost margin number _ blank denotes => exact ⟨some cost, read_cost margin number cost more blank denotes, rfl⟩
  | times before after uncoloned _ _ => exact ⟨none, read_times before after more uncoloned, rfl⟩

theorem last_line (plan : Plan) (cost : Float) (last : String) (ends : Ends plan cost last) :
    OneLine last.toList ∧ last.toList ≠ [] := by
  cases ends with
  | cost margin number _ blank denotes =>
      refine ⟨?_, by simp [String.toList_append]⟩
      simp only [String.toList_append, OneLine, List.forall_mem_append]
      refine ⟨⟨fun c member => numbering_line c (blank_numbering _ blank c member), by simp⟩, fun c member => ?_⟩
      exact visible_line c ((denotes_text _ cost denotes).2.1 c member)
  | times before after _ whole wholeToo =>
      refine ⟨?_, by simp [String.toList_append]⟩
      simp only [String.toList_append, OneLine, List.forall_mem_append]
      exact ⟨⟨whole, by simp⟩, wholeToo⟩

end Lines

theorem prints_lines (plan : Plan) (ls : List String) (named : ∀ step ∈ plan, Named step) (prints : Prints plan ls) :
    ∀ l ∈ ls, OneLine l.toList := by
  induction prints with
  | done => exact nofun
  | blank spaces blank _ ih =>
      exact List.forall_mem_cons.mpr ⟨fun c member => numbering_line c (blank_numbering _ blank c member), ih named⟩
  | step label k g labelled _ ih =>
      obtain ⟨here, others⟩ := List.forall_mem_cons.mp named
      refine List.forall_mem_cons.mpr ⟨?_, ih others⟩
      simp only [String.toList_append, OneLine, List.forall_mem_append]
      refine ⟨⟨⟨fun c member => ?_, fun c member => ?_⟩, by simp⟩, fun c member => ?_⟩
      · exact numbering_line c (label_numbering label labelled c member)
      · exact numbering_line c (.inr (.inr (.inr (Names.digits_of_number k c member))))
      · rcases wording_char here c member with visible | rfl
        · exact visible_line c visible
        · decide

theorem read_prints (plan : Plan) (ls : List String) (cost : Option Float) (last : List (List Char))
    (named : ∀ step ∈ plan, Named step) (prints : Prints plan ls) (ends : steps? last = some ([], cost)) :
    steps? (ls.map String.toList ++ last) = some (plan.map lower, cost) := by
  induction prints with
  | done => exact ends
  | blank spaces blank _ ih => rw [List.map_cons, List.cons_append, read_blank spaces _ blank, ih named]
  | step label k g labelled _ ih =>
      obtain ⟨here, others⟩ := List.forall_mem_cons.mp named
      rw [List.map_cons, List.cons_append, read_step label k g _ labelled here, ih others]
      rfl

theorem parse_report (plan : Plan) (cost : Float) (out : String) (named : ∀ step ∈ plan, Named step)
    (report : Report plan cost out) (unsolved : ¬"The empty plan solves it".toList <:+: out.toList) :
    ∃ elapsed, parse? out = some ⟨plan.map lower, cost, elapsed⟩ := by
  have something := contains_none _ _ unsolved
  obtain ⟨earlier, line, steps, last, rest, headline, prints, ends, ended⟩ := report
  obtain ⟨body, found, after⟩ := headline_found "ff: found legal plan as follows" earlier line
    (printed steps ++ (last ++ rest)) (by simp) (by simp) headline
  obtain ⟨whole, nonempty⟩ := last_line plan cost last ends
  obtain ⟨more, split⟩ := lines_printed steps last rest (prints_lines plan steps named prints) whole nonempty ended
  obtain ⟨given, read, counted⟩ := read_last plan cost last more ends
  refine ⟨(lines (printed (earlier ++ [line]) ++ (printed steps ++ (last ++ rest))).toList).findSome? totalTime?, ?_⟩
  rw [parse?]
  simp only [something, found, after, split, read_prints plan steps given _ named prints read, Option.map_some]
  rw [if_neg Bool.false_ne_true, List.length_map, counted]

end Replan.Output.FastForward
