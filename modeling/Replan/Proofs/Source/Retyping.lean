import Replan.Proofs.Source.Layout
import Replan.Source.Formula

set_option autoImplicit false

namespace Replan.Source.Parser

variable {R α β γ δ : Type}

structure Near (n m : Nat) (c d : Cursor) : Prop where
  text : Retyped c.rest d.rest
  requirements : c.requirements = d.requirements
  left : c.rest.length < n
  right : d.rest.length < m

-- Two replies from `c` and `d`. Success has taken up at least `k` characters of either text.
inductive SameReply (k : Nat) (view : α → γ) (c d : Cursor) : Reply R α → Reply R α → Prop where
  | done {a b : α} {next last : Cursor} (value : view a = view b)
      (near : Near (c.rest.length + 1 - k) (d.rest.length + 1 - k) next last) :
      SameReply k view c d (.done a next) (.done b last)
  | miss (e f : Diagnostic R) : SameReply k view c d (.miss e) (.miss f)
  | fail (e f : Diagnostic R) : SameReply k view c d (.fail e) (.fail f)

-- On texts shorter than the bounds, the two parsers do the same.
def Agree (n m k : Nat) (view : α → γ) (p q : Parser R α) : Prop :=
  ∀ c d, Near n m c d → SameReply k view c d (p c) (q d)

variable {n m k : Nat} {view : α → γ} {other : β → δ} {p q : Parser R α} {f g : α → Parser R β}

theorem near_within {i j : Nat} {c d : Cursor} (near : Near i j c d) (left : i ≤ n) (right : j ≤ m) : Near n m c d :=
  ⟨near.text, near.requirements, near.left.trans_le left, near.right.trans_le right⟩

theorem near_here {c d : Cursor} (near : Near n m c d) : Near (c.rest.length + 1) (d.rest.length + 1) c d :=
  ⟨near.text, near.requirements, Nat.lt_succ_self _, Nat.lt_succ_self _⟩

theorem agree_left_empty : Agree 0 m k view p q := fun _ _ near => absurd near.left (Nat.not_lt_zero _)

theorem agree_right_empty : Agree n 0 k view p q := fun _ _ near => absurd near.right (Nat.not_lt_zero _)

theorem agree_pure {a b : α} (same : view a = view b) : Agree (R := R) n m 0 view (pure a) (pure b) :=
  fun _ _ near => .done same (near_here near)

theorem agree_cursor : Agree (R := R) n m 0 (fun _ => ()) cursor cursor := fun _ _ near => .done rfl (near_here near)

theorem agree_declare (more : RequirementSet) : Agree (R := R) n m 0 id (declare more) (declare more) := by
  intro c d near
  refine .done rfl ⟨near.text, ?_, Nat.lt_succ_self _, Nat.lt_succ_self _⟩
  rw [near.requirements]

theorem agree_view {coarser : α → δ} (agree : Agree n m k view p q)
    (coarse : ∀ a b, view a = view b → coarser a = coarser b) : Agree n m k coarser p q := by
  intro c d near
  have reply := agree c d near
  generalize p c = x at reply ⊢
  generalize q d = y at reply ⊢
  cases reply with
  | done value onwards => exact .done (coarse _ _ value) onwards
  | miss e f => exact .miss e f
  | fail e f => exact .fail e f

theorem agree_loose (agree : Agree n m 1 view p q) : Agree n m 0 view p q := by
  intro c d near
  have reply := agree c d near
  generalize p c = x at reply ⊢
  generalize q d = y at reply ⊢
  cases reply with
  | done value onwards => exact .done value (near_within onwards (Nat.le_succ _) (Nat.le_succ _))
  | miss e f => exact .miss e f
  | fail e f => exact .fail e f

theorem agree_bind (j : Nat) (first : Agree n m j view p q)
    (second : ∀ a b, view a = view b → Agree (n - j) (m - j) k other (f a) (g b)) :
    Agree n m (k + j) other (p >>= f) (q >>= g) := by
  intro c d near
  have reply := first c d near
  have left := near.left
  have right := near.right
  show SameReply (k + j) other c d (andThen p f c) (andThen q g d)
  rw [andThen, andThen]
  generalize p c = x at reply ⊢
  generalize q d = y at reply ⊢
  cases reply with
  | miss e f => exact .miss e f
  | fail e f => exact .fail e f
  | @done a b next last value onwards =>
      have reply := second a b value next last (near_within onwards (by omega) (by omega))
      simp only
      generalize f a next = x at reply ⊢
      generalize g b last = y at reply ⊢
      cases reply with
      | miss e f => exact .miss e f
      | fail e f => exact .fail e f
      | done value further =>
          have nextLeft := onwards.left
          have nextRight := onwards.right
          exact .done value (near_within further (by omega) (by omega))

theorem agree_bind_same (j : Nat) (first : Agree n m j id p q)
    (second : ∀ a, Agree (n - j) (m - j) k other (f a) (g a)) : Agree n m (k + j) other (p >>= f) (q >>= g) := by
  refine agree_bind j first ?_
  rintro a _ rfl
  exact second a

theorem agree_next (first : Agree n m 1 view p q)
    (second : ∀ a b, view a = view b → Agree n m 0 other (f a) (g b)) : Agree n m 0 other (p >>= f) (q >>= g) :=
  agree_bind 0 (agree_loose first) second

theorem agree_next_same (first : Agree n m 1 id p q) (second : ∀ a, Agree n m 0 other (f a) (g a)) :
    Agree n m 0 other (p >>= f) (q >>= g) :=
  agree_bind_same 0 (agree_loose first) second

theorem agree_either {p' q' : Parser R α} (first : Agree n m k view p q) (second : Agree n m k view p' q') :
    Agree n m k view (either p p') (either q q') := by
  intro c d near
  have reply := first c d near
  rw [either, either]
  generalize p c = x at reply ⊢
  generalize q d = y at reply ⊢
  cases reply with
  | done value onwards => exact .done value onwards
  | fail e f => exact .fail e f
  | miss e f =>
      have reply := second c d near
      simp only
      generalize p' c = x at reply ⊢
      generalize q' d = y at reply ⊢
      cases reply with
      | done value onwards => exact .done value onwards
      | miss e f => exact .miss _ _
      | fail e f => exact .fail e f

theorem agree_first_of {ps qs : List (Parser R α)} (first : Agree n m k view p q)
    (others : List.Forall₂ (Agree n m k view) ps qs) : Agree n m k view (firstOf p ps) (firstOf q qs) := by
  induction others generalizing p q with
  | nil => exact first
  | cons next _ ih => exact agree_either first (ih next)

theorem agree_cut (agree : Agree n m k view p q) : Agree n m k view (cut p) (cut q) := by
  intro c d near
  have reply := agree c d near
  rw [cut, cut]
  generalize p c = x at reply ⊢
  generalize q d = y at reply ⊢
  cases reply with
  | done value onwards => exact .done value onwards
  | miss e f => exact .fail e f
  | fail e f => exact .fail e f

theorem agree_opt (agree : Agree n m 0 view p q) : Agree n m 0 (Option.map view) (opt p) (opt q) := by
  intro c d near
  have reply := agree c d near
  rw [opt, opt]
  generalize p c = x at reply ⊢
  generalize q d = y at reply ⊢
  cases reply with
  | done value onwards => exact .done (congrArg some value) onwards
  | miss e f => exact .done rfl (near_here near)
  | fail e f => exact .fail e f

theorem agree_opt_same (agree : Agree n m 0 id p q) : Agree n m 0 id (opt p) (opt q) :=
  agree_view (agree_opt agree) fun a b same => by simpa using same

theorem agree_named (kind other : ErrorKind R) (agree : Agree n m k view p q) :
    Agree n m k view (named kind p) (named other q) := by
  intro c d near
  have reply := agree c d near
  rw [named, named]
  generalize p c = x at reply ⊢
  generalize q d = y at reply ⊢
  cases reply with
  | done value onwards => exact .done value onwards
  | miss e f => exact .miss _ _
  | fail e f => exact .fail e f

theorem agree_requires (oneOf : RequirementSet) (agree : Agree n m k view p q) :
    Agree n m k view (requires oneOf p) (requires oneOf q) := by
  intro c d near
  have reply := agree c d near
  rw [requires, requires, near.requirements]
  generalize p c = x at reply ⊢
  generalize q d = y at reply ⊢
  cases reply with
  | miss e f => exact .miss e f
  | fail e f => exact .fail e f
  | done value onwards =>
      simp only
      split
      · exact .fail _ _
      · exact .done value onwards

theorem agree_many (agree : Agree n m 1 view p q) : Agree n m 0 (List.map view) (many p) (many q) := by
  intro c
  induction size : c.rest.length using Nat.strongRecOn generalizing c with
  | _ length ih =>
      intro d near
      have reply := agree c d near
      rw [many, many]
      generalize p c = x at reply ⊢
      generalize q d = y at reply ⊢
      cases reply with
      | miss e f => exact .done rfl (near_here near)
      | fail e f => exact .fail e f
      | @done a b next last value onwards =>
          have shorter : next.rest.length < c.rest.length := onwards.left
          have shorterToo : last.rest.length < d.rest.length := onwards.right
          simp only [if_pos shorter, if_pos shorterToo]
          have reply := ih _ (size ▸ shorter) next rfl last
            (near_within onwards (Nat.le_of_lt near.left) (Nat.le_of_lt near.right))
          generalize many p next = x at reply ⊢
          generalize many q last = y at reply ⊢
          cases reply with
          | miss e f => exact .miss e f
          | fail e f => exact .fail e f
          | done values further =>
              refine .done ?_ (near_within further (by omega) (by omega))
              rw [List.map_cons, List.map_cons, value, values]

theorem agree_shorter {i j : Nat} (agree : Agree n m k view p q) (left : i ≤ n) (right : j ≤ m) :
    Agree i j k view p q :=
  fun c d near => agree c d (near_within near left right)

theorem agree_many_same (agree : Agree n m 1 id p q) : Agree n m 0 id (many p) (many q) :=
  agree_view (agree_many agree) fun as bs same => by simpa using same

theorem agree_many_one (agree : Agree n m 1 view p q) : Agree n m 1 (List.map view) (many1 p) (many1 q) := by
  refine agree_bind 1 agree fun a b first => ?_
  have further := agree_many (agree_shorter agree (Nat.sub_le n 1) (Nat.sub_le m 1))
  refine agree_bind 0 further fun as bs more => agree_pure ?_
  rw [List.map_cons, List.map_cons, first, more]

theorem agree_many_one_same (agree : Agree n m 1 id p q) : Agree n m 1 id (many1 p) (many1 q) :=
  agree_view (agree_many_one agree) fun as bs same => by simpa using same

end Replan.Source.Parser
