import Replan.Output.FastDownward
import Replan.Proofs.Output.Steps

set_option autoImplicit false

namespace Replan.Output.FastDownward

def Stamp (s : String) : Prop :=
  s = "" ∨ ∃ seconds size x y, Denotes seconds.toList x ∧ Denotes size.toList y ∧
    s = "[t=" ++ seconds ++ "s, " ++ size ++ " KB] "

inductive Prints : Plan → List String → Prop
  | done : Prints [] []
  | step {plan : Plan} {ls : List String} (stamp : String) (g : Ground) (cost : String) (x : Float)
      (stamped : Stamp stamp) (number : Denotes cost.toList x) (rest : Prints plan ls) :
      Prints (g :: plan) ((stamp ++ wording g ++ " (" ++ cost ++ ")") :: ls)

-- The whole output: the plan after its headline, the cost of the plan, and what else may follow.
inductive Report (plan : Plan) (cost : Float) : String → Prop
  | mk (earlier : List String) (line : String) (steps : List String) (stamp number rest : String)
      (headline : Headline "Solution found!" earlier line) (prints : Prints plan steps) (stamped : Stamp stamp)
      (denotes : Denotes number.toList cost) (ended : ∀ c ∈ rest.toList.head?, c = '\n') :
      Report plan cost
        (printed (earlier ++ [line]) ++ (printed steps ++ (stamp ++ "Plan cost: " ++ number ++ rest)))

section Stamps

def Inner (c : Char) : Prop := c ≠ ':' ∧ c ≠ '\n' ∧ c ≠ '\r'

theorem visible_inner (c : Char) (visible : Visible c) : Inner c :=
  ⟨visible_unless ':' c (by decide) visible, visible_line c visible⟩

theorem inner_line (cs : List Char) (inner : ∀ c ∈ cs, Inner c) : OneLine cs := fun c member => (inner c member).2

theorem no_mark (mark line : List Char) (colon : ':' ∈ mark) (inner : ∀ c ∈ line, Inner c) : ¬mark <:+: line :=
  fun inside => (inner ':' (inside.subset colon)).1 rfl

theorem stamp_brackets (s : String) (stamp : Stamp s) :
    s = "" ∨ ∃ inside, s.toList = '[' :: (inside ++ [']', ' ']) ∧ ∀ c ∈ inside, Inner c ∧ c ≠ ']' := by
  rcases stamp with none | ⟨seconds, size, x, y, first, second, rfl⟩
  · exact .inl none
  · have number (t : List Char) (z : Float) (denotes : Denotes t z) : ∀ c ∈ t, Inner c ∧ c ≠ ']' := fun c member =>
      have visible := (denotes_text t z denotes).2.1 c member
      ⟨visible_inner c visible, visible_unless ']' c (by decide) visible⟩
    refine .inr ⟨"t=".toList ++ (seconds.toList ++ ("s, ".toList ++ (size.toList ++ " KB".toList))), ?_, ?_⟩
    · simp [String.toList_append]
    · simp only [List.forall_mem_append]
      exact ⟨by simp [Inner], number _ x first, by simp [Inner], number _ y second, by simp [Inner]⟩

theorem stamp_inner (s : String) (stamp : Stamp s) : ∀ c ∈ s.toList, Inner c := by
  rcases stamp_brackets s stamp with rfl | ⟨inside, shape, inner⟩
  · exact nofun
  · rw [shape, List.forall_mem_cons, List.forall_mem_append]
    exact ⟨by simp [Inner], fun c member => (inner c member).1, by simp [Inner]⟩

theorem after_stamp (s : String) (stamp : Stamp s) (text : List Char)
    (starts : ∀ c ∈ text.head?, isWhite c = false ∧ c ≠ '[') :
    ∃ spaced, afterStamp? (s.toList ++ text) = some spaced ∧ trim spaced = trim text := by
  rcases stamp_brackets s stamp with rfl | ⟨inside, shape, inner⟩
  · refine ⟨text, ?_, rfl⟩
    rw [String.toList_empty, List.nil_append, afterStamp?, trim_start_none text fun c first => (starts c first).1]
    split
    · exact absurd rfl (starts '[' rfl).2
    · rfl
  · refine ⟨' ' :: text, ?_, rfl⟩
    have whole : s.toList ++ text = '[' :: (inside ++ ']' :: ' ' :: text) := by
      rw [shape, List.cons_append, List.append_assoc]
      rfl
    have closing : (inside ++ ']' :: ' ' :: text).dropWhile (fun c => c != ']') = ']' :: ' ' :: text :=
      (Source.taken_word _ inside _ (fun c member => by simpa using (inner c member).2) fun c first => by
        cases first
        rfl).2
    rw [whole, afterStamp?, trim_start_none _ (by simp [isWhite])]
    simp only [closing]

theorem split_last (before last : List Char) (unspaced : ' ' ∉ last) :
    splitLast? (before ++ ' ' :: last) = some (before, last) := by
  have backwards : (before ++ ' ' :: last).reverse = last.reverse ++ ' ' :: before.reverse := by simp
  have word : ∀ c ∈ last.reverse, (c != ' ') = true := by
    intro c member
    refine bne_iff_ne.mpr ?_
    rintro rfl
    exact unspaced (List.mem_reverse.mp member)
  obtain ⟨taken, dropped⟩ := Source.taken_word (fun c => c != ' ') last.reverse (' ' :: before.reverse) word (by simp)
  rw [splitLast?, backwards, taken, dropped]
  simp only [List.reverse_reverse]

theorem is_cost (t : List Char) (x : Float) (denotes : Denotes t x) : isCost ('(' :: (t ++ [')'])) = true := by
  have backwards : (t ++ [')']).reverse = ')' :: t.reverse := by simp
  rw [isCost, backwards]
  simp only [List.reverse_reverse]
  exact (denotes_text t x denotes).2.2

end Stamps

section Step

def bare (g : Ground) (cost : String) : List Char := (wording g).toList ++ ' ' :: '(' :: (cost.toList ++ [')'])

theorem line_bare (stamp : String) (g : Ground) (cost : String) :
    (stamp ++ wording g ++ " (" ++ cost ++ ")").toList = stamp.toList ++ bare g cost := by
  simp [bare, String.toList_append]

variable {stamp cost : String} {g : Ground} {x : Float} (stamped : Stamp stamp) (named : Named g)
  (number : Denotes cost.toList x)
include stamped named number

theorem step_inner : ∀ c ∈ (stamp ++ wording g ++ " (" ++ cost ++ ")").toList, Inner c := by
  have words : ∀ c ∈ (wording g).toList, Inner c := fun c member => by
    rcases wording_char named c member with visible | rfl
    · exact visible_inner c visible
    · simp [Inner]
  have digits : ∀ c ∈ cost.toList, Inner c := fun c member =>
    visible_inner c ((denotes_text _ x number).2.1 c member)
  rw [line_bare, bare]
  simp only [List.forall_mem_append, List.forall_mem_cons]
  exact ⟨stamp_inner stamp stamped, words, by simp [Inner], by simp [Inner], digits, by simp [Inner]⟩

theorem step_of_line : stepOf? (stamp ++ wording g ++ " (" ++ cost ++ ")").toList = some (lower g) := by
  obtain ⟨digits, visible, -⟩ := denotes_text _ x number
  have starts : ∀ c ∈ (bare g cost).head?, isWhite c = false ∧ c ≠ '[' := by
    intro c first
    rw [bare, List.head?_append_of_ne_nil _ (wording_some named)] at first
    have shown := wording_starts named c first
    exact ⟨visible_not_white c shown, visible_unless '[' c (by decide) shown⟩
  have stops : ∀ c ∈ (bare g cost).getLast?, isWhite c = false := by
    intro c last
    have closing : bare g cost = (wording g).toList ++ ' ' :: '(' :: cost.toList ++ [')'] := by simp [bare]
    rw [closing, List.getLast?_concat] at last
    cases last
    rfl
  have unspaced : ' ' ∉ '(' :: (cost.toList ++ [')']) := by
    have inDigits : ' ' ∉ cost.toList := fun member => absurd (visible ' ' member) (by decide)
    simp [inDigits]
  obtain ⟨spaced, stripped, trimmed⟩ := after_stamp stamp stamped (bare g cost) starts
  rw [stepOf?, line_bare, stripped, Option.bind_some, trimmed, trim_none _ (fun c first => (starts c first).1) stops,
    bare, split_last _ _ unspaced, Option.bind_some]
  simp only [is_cost _ x number, step_of_wording named, if_true]

theorem read_step (elapsed : Option Float) (rest : List (List Char)) :
    read elapsed ((stamp ++ wording g ++ " (" ++ cost ++ ")").toList :: rest) =
      (read elapsed rest).map fun output => { output with plan := lower g :: output.plan } := by
  have inner := step_inner stamped named number
  have unlabelled := labelled_none "Actual search time:" _ (no_mark _ _ (by decide) inner)
  have noLength := contains_none _ _ (no_mark "Plan length:".toList _ (by decide) inner)
  have noCost : planCost? (stamp ++ wording g ++ " (" ++ cost ++ ")").toList = none := by
    rw [planCost?, (from_none_iff _ _).mpr (no_mark "Plan cost:".toList _ (by decide) inner)]
    rfl
  rw [read, unlabelled]
  simp only [noLength, noCost, step_of_line stamped named number]
  rfl

end Step

section Cost

variable {stamp number : String} {x : Float} (stamped : Stamp stamp) (denotes : Denotes number.toList x)
include stamped denotes

theorem last_line : (stamp ++ "Plan cost: " ++ number).toList =
    (stamp.toList ++ "Plan cost".toList) ++ ':' :: ' ' :: number.toList ∧
      (∀ c ∈ stamp.toList ++ "Plan cost".toList, Inner c) ∧ ∀ c ∈ ' ' :: number.toList, Inner c := by
  refine ⟨by simp [String.toList_append], List.forall_mem_append.mpr ⟨stamp_inner stamp stamped, by simp [Inner]⟩, ?_⟩
  refine List.forall_mem_cons.mpr ⟨by simp [Inner], fun c member => ?_⟩
  exact visible_inner c ((denotes_text _ x denotes).2.1 c member)

theorem cost_colon (mark before after : List Char)
    (same : before ++ (mark ++ ':' :: after) = (stamp ++ "Plan cost: " ++ number).toList) :
    before ++ mark = stamp.toList ++ "Plan cost".toList ∧ after = ' ' :: number.toList := by
  obtain ⟨line, first, second⟩ := last_line stamped denotes
  rw [line, ← List.append_assoc] at same
  obtain ⟨marked, -, follows⟩ := (List.append_cons_inj_of_notMem (fun colon => (first ':' colon).1 rfl)
    fun colon => (second ':' colon).1 rfl).mp same.symm
  exact ⟨marked.symm, follows.symm⟩

theorem no_other_label (mark : List Char) (last : mark.getLast? ≠ some 't' ∧ mark ≠ []) :
    ¬mark ++ [':'] <:+: (stamp ++ "Plan cost: " ++ number).toList := by
  rintro ⟨before, after, same⟩
  rw [List.append_assoc, List.append_assoc] at same
  obtain ⟨marked, -⟩ := cost_colon stamped denotes mark before after same
  have ends := congrArg List.getLast? marked
  rw [List.getLast?_append_of_ne_nil _ last.2, List.getLast?_append_of_ne_nil _ (by simp)] at ends
  exact last.1 (ends.trans (by simp))

theorem plan_cost_of_line : planCost? (stamp ++ "Plan cost: " ++ number).toList = some x := by
  obtain ⟨digits, visible, -⟩ := denotes_text _ x denotes
  have label : "Plan cost:".toList = "Plan cost".toList ++ [':'] := by simp
  rw [planCost?]
  cases found : from? "Plan cost:".toList (stamp ++ "Plan cost: " ++ number).toList with
  | none =>
      refine absurd ⟨stamp.toList, ' ' :: number.toList, ?_⟩ ((from_none_iff _ _).mp found)
      simp [String.toList_append]
  | some text =>
      obtain ⟨⟨after, rfl⟩, before, same⟩ := from_some _ _ _ found
      rw [label, List.append_assoc] at same
      obtain ⟨-, rfl⟩ := cost_colon stamped denotes _ before after same
      have read := labelled_number "Plan cost:" [] [' '] number.toList x nofun (by simp [Blank]) (by simp)
        (fun c first => visible_stops c (visible c (List.mem_of_mem_head? first))) denotes
      rw [Option.bind_some]
      exact congrArg (Option.map Prod.fst) read

theorem read_last (elapsed : Option Float) (more : List (List Char)) :
    read elapsed ((stamp ++ "Plan cost: " ++ number).toList :: more) = some ⟨[], x, elapsed⟩ := by
  have unlabelled := labelled_none "Actual search time:" _
    (no_other_label stamped denotes "Actual search time".toList (by decide))
  have noLength : contains "Plan length:".toList (stamp ++ "Plan cost: " ++ number).toList = false :=
    contains_none _ _ (no_other_label stamped denotes "Plan length".toList (by decide))
  rw [read, unlabelled]
  simp only [noLength, plan_cost_of_line stamped denotes]
  rfl

end Cost

theorem read_prints (plan : Plan) (ls : List String) (cost : Float) (last : List (List Char)) (elapsed : Option Float)
    (named : ∀ step ∈ plan, Named step) (prints : Prints plan ls) (ends : read elapsed last = some ⟨[], cost, elapsed⟩) :
    read elapsed (ls.map String.toList ++ last) = some ⟨plan.map lower, cost, elapsed⟩ := by
  induction prints with
  | done => exact ends
  | step stamp g number x stamped denotes _ ih =>
      obtain ⟨here, others⟩ := List.forall_mem_cons.mp named
      rw [List.map_cons, List.cons_append, read_step stamped here denotes, ih others]
      rfl

theorem prints_lines (plan : Plan) (ls : List String) (named : ∀ step ∈ plan, Named step) (prints : Prints plan ls) :
    ∀ l ∈ ls, OneLine l.toList := by
  induction prints with
  | done => exact nofun
  | step stamp g number x stamped denotes _ ih =>
      obtain ⟨here, others⟩ := List.forall_mem_cons.mp named
      exact List.forall_mem_cons.mpr ⟨inner_line _ (step_inner stamped here denotes), ih others⟩

theorem parse_report (plan : Plan) (cost : Float) (out : String) (named : ∀ step ∈ plan, Named step)
    (report : Report plan cost out) : parse? out = some ⟨plan.map lower, cost, none⟩ := by
  obtain ⟨earlier, line, steps, stamp, number, rest, headline, prints, stamped, denotes, ended⟩ := report
  obtain ⟨body, found, after⟩ := headline_found "Solution found!" earlier line
    (printed steps ++ (stamp ++ "Plan cost: " ++ number ++ rest)) (by simp) (by simp) headline
  have whole : OneLine (stamp ++ "Plan cost: " ++ number).toList := by
    obtain ⟨shape, first, second⟩ := last_line stamped denotes
    rw [shape]
    intro c member
    rcases List.mem_append.mp member with before | after
    · exact (first c before).2
    · rcases List.mem_cons.mp after with rfl | after
      · decide
      · exact (second c after).2
  obtain ⟨more, split⟩ := lines_printed steps (stamp ++ "Plan cost: " ++ number) rest
    (prints_lines plan steps named prints) whole (by simp [String.toList_append]) ended
  rw [parse?, found, Option.bind_some, after, split]
  exact read_prints plan steps cost _ none named prints (read_last stamped denotes none more)

end Replan.Output.FastDownward
