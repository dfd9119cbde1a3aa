import Replan.Source.Lexeme

set_option autoImplicit false

namespace Replan.Source

open Replan.Source.Parser

abbrev NameList := List (Span × String)

namespace Cursor

theorem width_cons (c : Char) (cs : List Char) : width (c :: cs) = c.utf8Size + width cs := by
  rw [width, width, ← List.sum_eq_foldl_nat, ← List.sum_eq_foldl_nat, List.map_cons, List.sum_cons]

theorem width_append (as bs : List Char) : width (as ++ bs) = width as + width bs := by
  induction as with
  | nil => exact (Nat.zero_add _).symm
  | cons c as ih => rw [List.cons_append, width_cons, width_cons, ih, Nat.add_assoc]

structure Moves (c : Cursor) (taken : List Char) (next : Cursor) : Prop where
  text : c.rest = taken ++ next.rest
  offset : next.offset = c.offset + width taken
  inProblem : next.inProblem = c.inProblem

def Reaches (c next : Cursor) : Prop := ∃ taken, c.Moves taken next

variable {s c d e : Cursor} {xs ys : List Char}

theorem moves_here (c : Cursor) : c.Moves [] c := ⟨rfl, rfl, rfl⟩

theorem moves_on (first : c.Moves xs d) (second : d.Moves ys e) : c.Moves (xs ++ ys) e where
  text := by rw [first.text, second.text, List.append_assoc]
  offset := by rw [second.offset, first.offset, width_append, Nat.add_assoc]
  inProblem := second.inProblem.trans first.inProblem

theorem moved_moves (c : Cursor) (taken rest : List Char) (text : c.rest = taken ++ rest) :
    c.Moves taken (c.moved taken rest) := ⟨text, rfl, rfl⟩

theorem reaches_here (c : Cursor) : c.Reaches c := ⟨[], moves_here c⟩

theorem reaches_on (first : c.Reaches d) (second : d.Reaches e) : c.Reaches e := by
  obtain ⟨xs, moves⟩ := first
  obtain ⟨ys, further⟩ := second
  exact ⟨xs ++ ys, moves_on moves further⟩

theorem reaches_offset (reached : c.Reaches d) : c.offset ≤ d.offset := by
  obtain ⟨taken, moves⟩ := reached
  rw [moves.offset]
  exact Nat.le_add_right _ _

def Spans (s : Cursor) (span : Span) : Prop := ∃ a b, s.Reaches a ∧ a.Reaches b ∧ span = a.spanTo b.offset

structure Sees {R : Type} (s : Cursor) (fault : Diagnostic R) : Prop where
  span : s.Spans fault.span
  opened : ∀ offset, fault.kind = .unclosedParenthesis offset →
    ∃ a, s.Reaches a ∧ a.offset = offset ∧ a.rest.head? = some '('

theorem spans_rest (reached : s.Reaches c) : s.Spans c.span :=
  ⟨c, c.moved c.rest [], reached, ⟨c.rest, c.moved_moves _ _ (List.append_nil _).symm⟩, rfl⟩

theorem spans_here (reached : s.Reaches c) : s.Spans c.here :=
  ⟨c, c.moved (c.rest.take 1) (c.rest.drop 1), reached,
    ⟨c.rest.take 1, c.moved_moves _ _ (List.take_append_drop 1 c.rest).symm⟩, rfl⟩

inductive Names (s : Cursor) : NameList → Cursor → Prop
  | start : Names s [] s
  | moved {names : NameList} {c d : Cursor} : Names s names c → c.Reaches d → Names s names d
  | name {names : NameList} {c d : Cursor} {word : List Char} :
      Names s names c → c.Moves word d → word ≠ [] → Names s (names ++ [(c.spanTo d.offset, lowered word)]) d

theorem names_reached {names : NameList} (listed : s.Names names c) : s.Reaches c := by
  induction listed with
  | start => exact reaches_here s
  | moved _ onward ih => exact reaches_on ih onward
  | name _ moves _ ih => exact reaches_on ih ⟨_, moves⟩

theorem names_before {names : NameList} (listed : s.Names names c) (entry : Span × String) (member : entry ∈ names) :
    entry.1.stop ≤ c.offset := by
  induction listed with
  | start => cases member
  | moved _ onward ih => exact Nat.le_trans (ih member) (reaches_offset onward)
  | name _ moves _ ih =>
      rcases List.mem_append.mp member with earlier | last
      · exact Nat.le_trans (ih earlier) (reaches_offset ⟨_, moves⟩)
      · rw [List.mem_singleton.mp last]
        exact Nat.le_refl _

theorem names_ordered {names : NameList} (listed : s.Names names c) : names.Pairwise fun a b => a.1.stop ≤ b.1.start := by
  induction listed with
  | start => exact .nil
  | moved _ _ ih => exact ih
  | name listed _ _ ih =>
      refine List.pairwise_append.mpr ⟨ih, List.pairwise_singleton _ _, fun a earlier b last => ?_⟩
      rw [List.mem_singleton.mp last]
      exact names_before listed a earlier

theorem names_written {names : NameList} (listed : s.Names names c) (entry : Span × String) (member : entry ∈ names) :
    ∃ a b word, s.Reaches a ∧ a.Moves word b ∧ word ≠ [] ∧ entry = (a.spanTo b.offset, lowered word) := by
  induction listed with
  | start => cases member
  | moved _ _ ih => exact ih member
  | name listed moves nonempty ih =>
      rcases List.mem_append.mp member with earlier | last
      · exact ih earlier
      · exact ⟨_, _, _, names_reached listed, moves, nonempty, List.mem_singleton.mp last⟩

theorem names_spans {names : NameList} (listed : s.Names names c) (entry : Span × String) (member : entry ∈ names) :
    s.Spans entry.1 := by
  obtain ⟨a, b, word, reached, moves, -, rfl⟩ := names_written listed entry member
  exact ⟨a, b, reached, ⟨word, moves⟩, rfl⟩

end Cursor

namespace Parser

variable {R α β : Type}

-- A reply from `c` in the text that begins at `s`. Success goes on in the text, and has read `names` so far.
inductive Located (s c : Cursor) (names : α → NameList) : Reply R α → Prop
  | done {a : α} {next : Cursor} (onward : c.Reaches next) (read : s.Names (names a) next) : Located s c names (.done a next)
  | miss {fault : Diagnostic R} (seen : s.Sees fault) : Located s c names (.miss fault)
  | fail {fault : Diagnostic R} (seen : s.Sees fault) : Located s c names (.fail fault)

def Follows (s : Cursor) (before : NameList) (p : Parser R α) (after : α → NameList) : Prop :=
  ∀ c, s.Names before c → Located s c after (p c)

def Lists (s : Cursor) (view : α → NameList) (p : Parser R α) : Prop :=
  ∀ before, Follows s before p fun a => before ++ view a

def Points (s : Cursor) (p : Parser R α) : Prop := ∀ before, Follows s before p fun _ => before

variable {s : Cursor} {before : NameList} {p q : Parser R α} {f : α → Parser R β} {names after : α → NameList}
  {last : β → NameList} {view : α → NameList}

theorem located_missing {c : Cursor} (reached : s.Reaches c) : Located (R := R) s c names (missing c) :=
  .miss ⟨Cursor.spans_here reached, nofun⟩

theorem follows_pure (a : α) (same : before = after a) : Follows (R := R) s before (pure a) after :=
  fun c read => .done (Cursor.reaches_here c) (same ▸ read)

theorem follows_bind (first : Follows s before p names) (second : ∀ a, Follows s (names a) (f a) last) :
    Follows s before (p >>= f) last := by
  intro c read
  have reply := first c read
  show Located s c last (andThen p f c)
  rw [andThen]
  generalize p c = x at reply ⊢
  cases reply with
  | miss seen => exact .miss seen
  | fail seen => exact .fail seen
  | @done a next onward further =>
      have reply := second a next further
      simp only
      generalize f a next = x at reply ⊢
      cases reply with
      | miss seen => exact .miss seen
      | fail seen => exact .fail seen
      | done later rest => exact .done (Cursor.reaches_on onward later) rest

theorem follows_either (first : Follows s before p after) (second : Follows s before q after) :
    Follows s before (either p q) after := by
  intro c read
  have reply := first c read
  rw [either]
  generalize p c = x at reply ⊢
  cases reply with
  | done onward further => exact .done onward further
  | fail seen => exact .fail seen
  | @miss fault seen =>
      have reply := second c read
      simp only
      generalize q c = y at reply ⊢
      cases reply with
      | done onward further => exact .done onward further
      | fail other => exact .fail other
      | @miss fault' other =>
          refine .miss ?_
          rw [further]
          by_cases later : fault.span.start < fault'.span.start
          · rw [if_pos later]
            exact other
          · rw [if_neg later]
            exact seen

theorem follows_cut (follows : Follows s before p after) : Follows s before (cut p) after := by
  intro c read
  have reply := follows c read
  rw [cut]
  generalize p c = x at reply ⊢
  cases reply with
  | done onward further => exact .done onward further
  | miss seen => exact .fail seen
  | fail seen => exact .fail seen

theorem follows_named (kind : ErrorKind R) (plain : ∀ offset, kind ≠ .unclosedParenthesis offset)
    (follows : Follows s before p after) : Follows s before (named kind p) after := by
  intro c read
  have reply := follows c read
  rw [named]
  generalize p c = x at reply ⊢
  cases reply with
  | done onward further => exact .done onward further
  | miss seen => exact .miss ⟨seen.span, fun offset same => absurd same (plain offset)⟩
  | fail seen => exact .fail seen

theorem follows_opt {after : Option α → NameList} (nothing : before = after none)
    (follows : Follows s before p fun a => after (some a)) : Follows s before (opt p) after := by
  intro c read
  have reply := follows c read
  rw [opt]
  generalize p c = x at reply ⊢
  cases reply with
  | done onward further => exact .done onward further
  | miss seen => exact .done (Cursor.reaches_here c) (nothing ▸ read)
  | fail seen => exact .fail seen

theorem follows_requires (oneOf : RequirementSet) (follows : Follows s before p after) :
    Follows s before (requires oneOf p) after := by
  intro c read
  have reply := follows c read
  rw [requires]
  generalize p c = x at reply ⊢
  cases reply with
  | miss seen => exact .miss seen
  | fail seen => exact .fail seen
  | @done a next onward further =>
      simp only
      by_cases shut : RequirementSet.disjoint c.requirements oneOf = true
      · rw [if_pos shut]
        exact .fail ⟨⟨c, next, Cursor.names_reached read, onward, rfl⟩, nofun⟩
      · rw [if_neg shut]
        exact .done onward further

theorem follows_forget (follows : Follows s before p after) : Follows s before p fun _ => before := by
  intro c read
  have reply := follows c read
  generalize p c = x at reply ⊢
  cases reply with
  | done onward _ => exact .done onward (.moved read onward)
  | miss seen => exact .miss seen
  | fail seen => exact .fail seen

theorem points_of_lists (lists : Lists s view p) : Points s p := fun before => follows_forget (lists before)

theorem points_bind (first : Points s p) (second : ∀ a, Points s (f a)) : Points s (p >>= f) :=
  fun before => follows_bind (first before) fun a => second a before

theorem points_pure (a : α) : Points (R := R) s (pure a) := fun _ => follows_pure a rfl

theorem points_then (g : α → β) (points : Points s p) : Points s (p >>= fun a => pure (g a)) :=
  points_bind points fun a => points_pure (g a)

theorem points_either (first : Points s p) (second : Points s q) : Points s (either p q) :=
  fun before => follows_either (first before) (second before)

theorem points_first_of (others : List (Parser R α)) (first : Points s p) (each : ∀ q ∈ others, Points s q) :
    Points s (firstOf p others) := by
  induction others generalizing p with
  | nil => exact first
  | cons q others ih =>
      exact points_either first (ih (each q List.mem_cons_self) fun r member => each r (List.mem_cons_of_mem q member))

theorem points_cut (points : Points s p) : Points s (cut p) := fun before => follows_cut (points before)

theorem points_named (kind : ErrorKind R) (plain : ∀ offset, kind ≠ .unclosedParenthesis offset) (points : Points s p) :
    Points s (named kind p) :=
  fun before => follows_named kind plain (points before)

theorem points_opt (points : Points s p) : Points s (opt p) := fun before => follows_opt rfl (points before)

theorem points_requires (oneOf : RequirementSet) (points : Points s p) : Points s (requires oneOf p) :=
  fun before => follows_requires oneOf (points before)

theorem points_declare (more : RequirementSet) : Points (R := R) s (declare more) := by
  intro before c read
  have onward : c.Reaches { c with requirements := RequirementSet.union c.requirements more } := ⟨[], rfl, rfl, rfl⟩
  exact .done onward (.moved read onward)

theorem lists_many (lists : Lists s view p) : Lists s (fun as => as.flatMap view) (many p) := by
  intro before c
  induction size : c.rest.length using Nat.strongRecOn generalizing c before with
  | _ n ih =>
      intro read
      have reply := lists before c read
      rw [many]
      generalize p c = x at reply ⊢
      cases reply with
      | fail seen => exact .fail seen
      | miss seen =>
          rw [← List.append_nil before] at read
          exact .done (Cursor.reaches_here c) read
      | @done a next onward further =>
          by_cases shorter : next.rest.length < c.rest.length
          · simp only [if_pos shorter]
            have reply := ih _ (size ▸ shorter) (before ++ view a) next rfl further
            generalize many p next = y at reply ⊢
            cases reply with
            | miss seen => exact .miss seen
            | fail seen => exact .fail seen
            | done later rest =>
                rw [List.append_assoc, ← List.flatMap_cons] at rest
                exact .done (Cursor.reaches_on onward later) rest
          · simp only [if_neg shorter]
            exact located_missing (Cursor.names_reached read)

theorem lists_many_one (lists : Lists s view p) : Lists s (fun as => as.flatMap view) (many1 p) := by
  intro before
  refine follows_bind (lists before) fun first => follows_bind (lists_many lists _) fun more => follows_pure _ ?_
  rw [List.append_assoc, ← List.flatMap_cons]

theorem lists_nothing (points : Points s p) : Lists s (fun _ => []) p := by
  intro before
  simp only [List.append_nil]
  exact points before

theorem points_many (points : Points s p) : Points s (many p) := points_of_lists (lists_many (lists_nothing points))

theorem points_many_one (points : Points s p) : Points s (many1 p) :=
  points_of_lists (lists_many_one (lists_nothing points))

theorem lists_opt {view : List α → NameList} {p : Parser R (List α)} (nothing : view [] = []) (lists : Lists s view p) :
    Lists s (fun as => view (as.getD [])) (opt p) := by
  intro before
  refine follows_opt ?_ (lists before)
  show before = before ++ view []
  rw [nothing, List.append_nil]

end Parser

end Replan.Source
