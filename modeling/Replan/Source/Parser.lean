import Replan.Error
import Replan.Text

set_option autoImplicit false

namespace Replan.Source

/-- The rest of a source text: its byte offset, which of the two texts it belongs to, and the
requirements declared so far. -/
structure Cursor where
  rest : List Char
  offset : Nat
  inProblem : Bool
  requirements : RequirementSet
deriving DecidableEq

namespace Cursor

def ofText (text : String) (inProblem : Bool) (requirements : RequirementSet) : Cursor :=
  ⟨text.toList, 0, inProblem, requirements⟩

def spanTo (c : Cursor) (stop : Nat) : Span := ⟨c.offset, stop, c.inProblem⟩

def width (text : List Char) : Nat := (text.map Char.utf8Size).foldl (· + ·) 0

def span (c : Cursor) : Span := c.spanTo (c.offset + width c.rest)

def here (c : Cursor) : Span := c.spanTo (c.offset + width (c.rest.take 1))

def moved (c : Cursor) (taken rest : List Char) : Cursor :=
  { c with rest, offset := c.offset + width taken }

end Cursor

inductive Reply (R : Type) (α : Type) where
  | done (value : α) (next : Cursor)
  | miss (error : Diagnostic R)
  | fail (error : Diagnostic R)

def Parser (R : Type) (α : Type) := Cursor → Reply R α

namespace Parser

variable {R : Type} {α : Type} {β : Type}

def andThen (p : Parser R α) (f : α → Parser R β) : Parser R β := fun c =>
  match p c with
  | .done a next => f a next
  | .miss e => .miss e
  | .fail e => .fail e

instance : Monad (Parser R) where
  pure a := fun c => .done a c
  bind := andThen

def cursor : Parser R Cursor := fun c => .done c c

def declare (more : RequirementSet) : Parser R Unit := fun c =>
  .done () { c with requirements := RequirementSet.union c.requirements more }

def missing (c : Cursor) : Reply R α := .miss ⟨.malformed, c.here⟩

def further (e f : Diagnostic R) : Diagnostic R := if e.span.start < f.span.start then f else e

def either (p q : Parser R α) : Parser R α := fun c =>
  match p c with
  | .miss e =>
      match q c with
      | .miss f => .miss (further e f)
      | reply => reply
  | reply => reply

def firstOf (p : Parser R α) : List (Parser R α) → Parser R α
  | [] => p
  | q :: qs => either p (firstOf q qs)

def cut (p : Parser R α) : Parser R α := fun c =>
  match p c with
  | .miss e => .fail e
  | reply => reply

def opt (p : Parser R α) : Parser R (Option α) := fun c =>
  match p c with
  | .done a next => .done (some a) next
  | .miss _ => .done none c
  | .fail e => .fail e

def named (kind : ErrorKind R) (p : Parser R α) : Parser R α := fun c =>
  match p c with
  | .miss e => .miss { e with kind }
  | reply => reply

def many (p : Parser R α) (c : Cursor) : Reply R (List α) :=
  match p c with
  | .miss _ => .done [] c
  | .fail e => .fail e
  | .done a next =>
      if next.rest.length < c.rest.length then
        match many p next with
        | .done as last => .done (a :: as) last
        | .miss e => .miss e
        | .fail e => .fail e
      else missing c
termination_by c.rest.length

def many1 (p : Parser R α) : Parser R (List α) := do
  let first ← p
  let more ← many p
  pure (first :: more)

def requires (oneOf : RequirementSet) (p : Parser R α) : Parser R α := fun c =>
  match p c with
  | .done a next =>
      if RequirementSet.disjoint c.requirements oneOf then
        .fail ⟨.unsetRequirement oneOf, c.spanTo next.offset⟩
      else .done a next
  | reply => reply

def satisfy (accepts : Char → Bool) : Parser R Char := fun c =>
  match c.rest with
  | [] => missing c
  | ch :: rest => if accepts ch then .done ch (c.moved [ch] rest) else missing c

def symbol (ch : Char) : Parser R Unit := do
  let _ ← satisfy (· == ch)
  pure ()

def takeWhile (accepts : Char → Bool) : Parser R (List Char) := fun c =>
  let taken := c.rest.takeWhile accepts
  .done taken (c.moved taken (c.rest.dropWhile accepts))

def notFollowedBy (accepts : Char → Bool) : Parser R Unit := fun c =>
  match c.rest with
  | [] => .done () c
  | ch :: _ => if accepts ch then missing c else .done () c

def word (w : String) : Parser R Unit := fun c =>
  match Text.stripAnyCase? w.toList c.rest with
  | none => missing c
  | some rest => .done () (c.moved w.toList rest)

end Parser

end Replan.Source
