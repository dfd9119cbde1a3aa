import Replan.Source.Parser

set_option autoImplicit false

namespace Replan.Source

structure Place where
  rest : List Char
  requirements : RequirementSet

def Cursor.place (c : Cursor) : Place := ⟨c.rest, c.requirements⟩

namespace Parser

variable {R α β : Type}

-- Wherever the parser stands at `start`, it succeeds and goes on to `stop`.
def Reads (p : Parser R α) (start stop : Place) (P : α → Prop) : Prop :=
  ∀ c : Cursor, c.place = start → ∃ a next, p c = .done a next ∧ P a ∧ next.place = stop

def Misses (p : Parser R α) (start : Place) : Prop :=
  ∀ c : Cursor, c.place = start → ∃ e, p c = .miss e

variable {p q : Parser R α} {f : α → Parser R β} {start m stop : Place} {P : α → Prop} {Q : β → Prop}

theorem reads_pure (a : α) (here : Place) (known : P a) : Reads (R := R) (pure a) here here P :=
  fun c same => ⟨a, c, rfl, known, same⟩

theorem reads_bind (first : Reads p start m P)
    (second : ∀ a, P a → Reads (f a) m stop Q) : Reads (p >>= f) start stop Q := by
  intro c same
  obtain ⟨a, next, done, known, reached⟩ := first c same
  obtain ⟨b, last, finished, holds, arrived⟩ := second a known next reached
  refine ⟨b, last, ?_, holds, arrived⟩
  show andThen p f c = _
  rw [andThen, done]
  exact finished

theorem misses_bind (first : Misses p start) : Misses (p >>= f) start := by
  intro c same
  obtain ⟨e, missed⟩ := first c same
  refine ⟨e, ?_⟩
  show andThen p f c = _
  rw [andThen, missed]

theorem misses_second (first : Reads p start m P) (second : ∀ a, P a → Misses (f a) m) :
    Misses (p >>= f) start := by
  intro c same
  obtain ⟨a, next, done, known, reached⟩ := first c same
  obtain ⟨e, missed⟩ := second a known next reached
  refine ⟨e, ?_⟩
  show andThen p f c = _
  rw [andThen, done]
  exact missed

theorem reads_weaken {weaker : α → Prop} (reads : Reads p start stop P) (weaken : ∀ a, P a → weaker a) :
    Reads p start stop weaker := by
  intro c same
  obtain ⟨a, next, done, known, reached⟩ := reads c same
  exact ⟨a, next, done, weaken a known, reached⟩

theorem reads_then_pure (g : α → β) (reads : Reads p start stop P) (known : ∀ a, P a → Q (g a)) :
    Reads (p >>= fun a => pure (g a)) start stop Q :=
  reads_bind reads fun a holds => reads_pure (g a) stop (known a holds)

theorem either_first (reads : Reads p start stop P) : Reads (either p q) start stop P := by
  intro c same
  obtain ⟨a, next, done, known, reached⟩ := reads c same
  exact ⟨a, next, by rw [either, done], known, reached⟩

theorem either_second (missed : Misses p start) (reads : Reads q start stop P) :
    Reads (either p q) start stop P := by
  intro c same
  obtain ⟨e, nothing⟩ := missed c same
  obtain ⟨a, next, done, known, reached⟩ := reads c same
  exact ⟨a, next, by rw [either, nothing, done], known, reached⟩

theorem either_misses (first : Misses p start) (second : Misses q start) : Misses (either p q) start := by
  intro c same
  obtain ⟨e, nothing⟩ := first c same
  obtain ⟨f, either_nothing⟩ := second c same
  exact ⟨further e f, by rw [either, nothing, either_nothing]⟩

theorem first_of_here (others : List (Parser R α)) (reads : Reads p start stop P) :
    Reads (firstOf p others) start stop P := by
  cases others with
  | nil => exact reads
  | cons q others => exact either_first reads

theorem first_of_later (others : List (Parser R α)) (missed : Misses p start)
    (reads : Reads (firstOf q others) start stop P) : Reads (firstOf p (q :: others)) start stop P :=
  either_second missed reads

theorem first_of_misses (others : List (Parser R α)) (missed : Misses p start)
    (allMiss : ∀ q ∈ others, Misses q start) : Misses (firstOf p others) start := by
  induction others generalizing p with
  | nil => exact missed
  | cons q others ih =>
      exact either_misses missed
        (ih (allMiss q List.mem_cons_self) fun r member => allMiss r (List.mem_cons_of_mem q member))

theorem cut_reads (reads : Reads p start stop P) : Reads (cut p) start stop P := by
  intro c same
  obtain ⟨a, next, done, known, reached⟩ := reads c same
  exact ⟨a, next, by rw [cut, done], known, reached⟩

theorem named_reads (kind : ErrorKind R) (reads : Reads p start stop P) :
    Reads (named kind p) start stop P := by
  intro c same
  obtain ⟨a, next, done, known, reached⟩ := reads c same
  exact ⟨a, next, by rw [named, done], known, reached⟩

theorem named_misses (kind : ErrorKind R) (missed : Misses p start) : Misses (named kind p) start := by
  intro c same
  obtain ⟨e, nothing⟩ := missed c same
  exact ⟨{ e with kind }, by rw [named, nothing]⟩

theorem opt_reads {Q : Option α → Prop} (reads : Reads p start stop P) (known : ∀ a, P a → Q (some a)) :
    Reads (opt p) start stop Q := by
  intro c same
  obtain ⟨a, next, done, holds, reached⟩ := reads c same
  exact ⟨some a, next, by rw [opt, done], known a holds, reached⟩

theorem opt_nothing {Q : Option α → Prop} (missed : Misses p start) (known : Q none) :
    Reads (opt p) start start Q := by
  intro c same
  obtain ⟨e, nothing⟩ := missed c same
  exact ⟨none, c, by rw [opt, nothing], known, same⟩

theorem requires_reads (oneOf : RequirementSet) (reads : Reads p start stop P)
    (opened : RequirementSet.disjoint start.requirements oneOf = false) :
    Reads (requires oneOf p) start stop P := by
  intro c same
  obtain ⟨a, next, done, known, reached⟩ := reads c same
  refine ⟨a, next, ?_, known, reached⟩
  have here : c.requirements = start.requirements := congrArg Place.requirements same
  rw [requires, done]
  simp only [here, opened]
  rfl

theorem requires_misses (oneOf : RequirementSet) (missed : Misses p start) : Misses (requires oneOf p) start := by
  intro c same
  obtain ⟨e, nothing⟩ := missed c same
  exact ⟨e, by rw [requires, nothing]⟩

theorem many_stops (missed : Misses p start) : Reads (many p) start start (· = []) := by
  intro c same
  obtain ⟨e, nothing⟩ := missed c same
  exact ⟨[], c, by rw [many, nothing], rfl, same⟩

theorem many_goes_on {Q : List α → Prop} {more : List α → Prop} (reads : Reads p start m P)
    (shorter : m.rest.length < start.rest.length) (others : Reads (many p) m stop more)
    (known : ∀ a as, P a → more as → Q (a :: as)) : Reads (many p) start stop Q := by
  intro c same
  obtain ⟨a, next, done, first, reached⟩ := reads c same
  obtain ⟨as, last, finished, rest, arrived⟩ := others next reached
  refine ⟨a :: as, last, ?_, known a as first rest, arrived⟩
  have progress : next.rest.length < c.rest.length := by
    rw [show c.rest = start.rest from congrArg Place.rest same,
      show next.rest = m.rest from congrArg Place.rest reached]
    exact shorter
  rw [many, done]
  simp only [if_pos progress, finished]

theorem many_one_reads {Q : List α → Prop} {more : List α → Prop} (reads : Reads p start m P)
    (others : Reads (many p) m stop more) (known : ∀ a as, P a → more as → Q (a :: as)) :
    Reads (many1 p) start stop Q :=
  reads_bind reads fun a first => reads_then_pure (fun as => a :: as) others fun as rest => known a as first rest

theorem declare_reads (more : RequirementSet) (start : Place) :
    Reads (R := R) (declare more) start ⟨start.rest, RequirementSet.union start.requirements more⟩
      (fun _ => True) := by
  rintro c rfl
  exact ⟨(), _, rfl, trivial, rfl⟩

theorem cursor_reads (start : Place) : Reads (R := R) cursor start start (fun _ => True) :=
  fun c same => ⟨c, c, rfl, trivial, same⟩

end Parser

end Replan.Source
