import Replan.Source.Parser
import Replan.Number.Decimal
import Replan.Term

set_option autoImplicit false

namespace Replan.Source

open Replan.Source.Parser

variable {R : Type} {α : Type}

def isBlank (c : Char) : Bool := c == ' ' || c == '\t' || c == '\r' || c == '\n'

def afterBlanks (inComment : Bool) : List Char → List Char
  | [] => []
  | c :: rest =>
      if inComment then afterBlanks (c != '\n') rest
      else if isBlank c then afterBlanks false rest
      else if c == ';' then afterBlanks true rest
      else c :: rest

def blanks : Parser R Unit := fun c =>
  let rest := afterBlanks false c.rest
  .done () (c.moved (c.rest.take (c.rest.length - rest.length)) rest)

def sign (ch : Char) : Parser R Unit := do
  symbol ch
  blanks

def isNameStart (c : Char) : Bool := c.isAlphanum || c == '_'

def isNameChar (c : Char) : Bool := c.isAlphanum || c == '-' || c == '_'

def keyword (w : String) : Parser R Unit := named (.expected w) do
  word w
  notFollowedBy isNameChar
  blanks

def lowered (cs : List Char) : String := String.ofList (cs.map Char.toLower)

def name : Parser R (Span × String) := do
  let start ← cursor
  let first ← named .expectedName (satisfy isNameStart)
  let more ← takeWhile isNameChar
  let stop ← cursor
  blanks
  pure (start.spanTo stop.offset, lowered (first :: more))

def variableName : Parser R (Span × String) := do
  let start ← cursor
  let (span, n) ← named .expectedVariable do
    symbol '?'
    name
  pure ({ span with start := start.offset }, "?" ++ n)

def term : Parser R Term := do
  let (_, n) ← either variableName name
  pure (Term.untyped n)

def parens (p : Parser R α) : Parser R α := do
  let start ← cursor
  named .parenthesis (sign '(')
  let a ← p
  cut (named (.unclosedParenthesis start.offset) (sign ')'))
  pure a

def emptyParens : Parser R Unit := do
  sign '('
  sign ')'

def digitGroups : Parser R (List Char × List Char) :=
  either
    (do
      let first ← satisfy Char.isDigit
      let whole ← takeWhile Char.isDigit
      let fraction ← opt do
        symbol '.'
        takeWhile Char.isDigit
      pure (first :: whole, fraction.getD []))
    (do
      symbol '.'
      let first ← satisfy Char.isDigit
      let fraction ← takeWhile Char.isDigit
      pure ([], first :: fraction))

def typedGroup (item : Parser R (Span × String)) : Parser R (List (Span × Term)) := do
  let items ← many1 item
  let kind ← opt do
    requires [.typing] (sign '-')
    cut name
  pure (items.map fun entry => (entry.1, ⟨entry.2, kind.map Prod.snd⟩))

def typedList (item : Parser R (Span × String)) : Parser R (List (Span × Term)) := do
  let groups ← named .expectedTypedList (many (typedGroup item))
  pure groups.flatten

def atom : Parser R Atom := parens do
  let (_, n) ← name
  let args ← many term
  pure ⟨n, args⟩

variable [Number R]

def decimal : Parser R R := named .expectedNumber do
  let minus ← opt (symbol '-')
  let (whole, fraction) ← digitGroups
  let magnitude : R := Number.ofDecimal (Decimal.value (whole ++ fraction)) fraction.length
  pure (if minus.isSome then -magnitude else magnitude)

def number : Parser R R := do
  let numerator ← decimal
  let denominator ← opt do
    symbol '/'
    decimal
  blanks
  match denominator with
  | none => pure numerator
  | some d => pure (numerator / d)

end Replan.Source
