import Replan.Text

set_option autoImplicit false

namespace Replan.Toml

abbrev Reader (α : Type) := StateT (List Char) Option α

namespace Reader

variable {α : Type} {β : Type}

def fail : Reader α := fun _ => none

def rest : Reader (List Char) := get

def peek? : Reader (Option Char) := do
  let cs ← rest
  pure cs.head?

def satisfy (accepts : Char → Bool) : Reader Char := fun
  | [] => none
  | c :: cs => if accepts c then some (c, cs) else none

def char (c : Char) : Reader Unit := do
  let _ ← satisfy (· == c)
  pure ()

def text (mark : String) : Reader Unit := fun cs =>
  (Text.strip? mark.toList cs).map fun rest => ((), rest)

def opt (p : Reader α) : Reader (Option α) := fun cs =>
  match p cs with
  | some (a, rest) => some (some a, rest)
  | none => some (none, cs)

def takeWhile (accepts : Char → Bool) : Reader (List Char) := fun cs =>
  some (cs.takeWhile accepts, cs.dropWhile accepts)

def takeWhile1 (accepts : Char → Bool) : Reader (List Char) := do
  let taken ← takeWhile accepts
  if taken.isEmpty then fail else pure taken

def exactly (accepts : Char → Bool) : Nat → Reader (List Char)
  | 0 => pure []
  | n + 1 => do
      let c ← satisfy accepts
      let cs ← exactly accepts n
      pure (c :: cs)

def manyWithin (p : Reader α) : Nat → Reader (List α)
  | 0 => pure []
  | n + 1 => do
      match ← opt p with
      | none => pure []
      | some a => do
          let more ← manyWithin p n
          pure (a :: more)

def many (p : Reader α) : Reader (List α) := do
  let cs ← rest
  manyWithin p cs.length

def separated1 (p : Reader α) (separator : Reader Unit) : Reader (List α) := do
  let first ← p
  let more ← many do
    separator
    p
  pure (first :: more)

def separated (p : Reader α) (separator : Reader Unit) : Reader (List α) := do
  pure ((← opt (separated1 p separator)).getD [])

end Reader

end Replan.Toml
