import Replan.Number.Numeral
import Replan.Toml.Reader
import Replan.Toml.Value

set_option autoImplicit false

namespace Replan.Toml

open Reader

def isSpace (c : Char) : Bool := c == ' ' || c == '\t'

def isPrintable (c : Char) : Bool := c == '\t' || (0x20 ≤ c.toNat && c.toNat != 0x7F)

def spaces : Reader Unit := do
  let _ ← takeWhile isSpace
  pure ()

def newline : Reader Unit := char '\n' <|> text "\r\n"

def comment : Reader Unit := do
  char '#'
  let _ ← takeWhile isPrintable
  pure ()

def isHex (c : Char) : Bool :=
  c.isDigit || ('a' ≤ c && c ≤ 'f') || ('A' ≤ c && c ≤ 'F')

def hexDigit (c : Char) : Nat :=
  if c.isDigit then c.toNat - 48 else if c.isLower then c.toNat - 87 else c.toNat - 55

def digitsValue (base : Nat) (digits : List Char) : Nat :=
  digits.foldl (fun n c => base * n + hexDigit c) 0

def codePoint (digits : Nat) : Reader Char := do
  let n := digitsValue 16 (← exactly isHex digits)
  if n < 0xD800 ∨ 0xDFFF < n ∧ n < 0x110000 then pure (Char.ofNat n) else fail

def escape : Reader Char := do
  match ← satisfy fun _ => true with
  | 'b' => pure '\x08'
  | 'f' => pure '\x0c'
  | 'n' => pure '\n'
  | 'r' => pure '\r'
  | 't' => pure '\t'
  | '"' => pure '"'
  | '\\' => pure '\\'
  | 'u' => codePoint 4
  | 'U' => codePoint 8
  | _ => fail

def escaped : Reader Char := do
  char '\\'
  escape

def isBasic (c : Char) : Bool := isPrintable c && c != '"' && c != '\\'

def isLiteral (c : Char) : Bool := isPrintable c && c != '\''

def basicString : Reader String := do
  char '"'
  let content ← many (satisfy isBasic <|> escaped)
  char '"'
  pure (String.ofList content)

def literalString : Reader String := do
  char '\''
  let content ← takeWhile isLiteral
  char '\''
  pure (String.ofList content)

def lineEnd : Reader (List Char) := do
  newline
  pure ['\n']

def continuation : Reader (List Char) := do
  char '\\'
  spaces
  newline
  let _ ← many (newline <|> (do let _ ← takeWhile1 isSpace))
  pure []

def looseQuotes (quote : Char) : Reader (List Char) := do
  let cs ← rest
  let run := cs.takeWhile (· == quote)
  if run.length = 1 ∨ run.length = 2 then takeWhile1 (· == quote) else fail

def closing (quote : Char) : Reader (List Char) := do
  let cs ← rest
  let extra := min ((cs.takeWhile (· == quote)).length - 3) 2
  exactly (· == quote) (extra + 3)

def multiline (quote : Char) (piece : Reader (List Char)) : Reader String := do
  let _ ← exactly (· == quote) 3
  let _ ← opt newline
  let content ← many (piece <|> lineEnd <|> looseQuotes quote)
  let last ← closing quote
  pure (String.ofList (content.flatten ++ last.drop 3))

def one (p : Reader Char) : Reader (List Char) := do
  pure [← p]

def multilineBasic : Reader String :=
  multiline '"' (one (satisfy isBasic) <|> continuation <|> one escaped)

def multilineLiteral : Reader String := multiline '\'' (one (satisfy isLiteral))

def string : Reader String :=
  multilineBasic <|> basicString <|> multilineLiteral <|> literalString

def digitRun (accepts : Char → Bool) : Reader (List Char) := do
  let first ← satisfy accepts
  let more ← many ((satisfy accepts) <|> (do char '_'; satisfy accepts))
  pure (first :: more)

def sign : Reader (List Char) := do
  match ← opt (satisfy fun c => c == '+' || c == '-') with
  | none => pure []
  | some c => pure [c]

def decimalText : Reader (List Char) := do
  let s ← sign
  match ← peek? with
  | some '0' => do
      char '0'
      pure (s ++ ['0'])
  | _ => pure (s ++ (← digitRun Char.isDigit))

def exponentText : Reader (List Char) := do
  let _ ← satisfy fun c => c == 'e' || c == 'E'
  let s ← sign
  let digits ← digitRun Char.isDigit
  pure ('e' :: s ++ digits)

def fractionText : Reader (List Char) := do
  char '.'
  let digits ← digitRun Char.isDigit
  pure ('.' :: digits)

def finiteFloat : Reader Float := do
  let whole ← decimalText
  let tail ← exponentText <|> (do
    let fraction ← fractionText
    let exponent ← opt exponentText
    pure (fraction ++ exponent.getD []))
  match Numeral.float? (String.ofList (whole ++ tail)) with
  | none => fail
  | some x => if x == Nearest.infinity then fail else pure x

def specialFloat : Reader Float := do
  let s ← sign
  let x ← (do text "inf"; pure Nearest.infinity) <|> (do text "nan"; pure Numeral.notANumber)
  pure (if s == ['-'] then -x else x)

def bounded (n : Int) : Reader Int :=
  let bound : Int := 0x8000000000000000
  if -bound ≤ n ∧ n < bound then pure n else fail

def basedInteger (mark : String) (base : Nat) (accepts : Char → Bool) : Reader Int := do
  text mark
  bounded (digitsValue base (← digitRun accepts))

def decimalInteger : Reader Int := do
  match Numeral.integer? (← decimalText) with
  | none => fail
  | some n => bounded n

def integer : Reader Int :=
  basedInteger "0x" 16 isHex <|> basedInteger "0o" 8 (fun c => '0' ≤ c && c ≤ '7') <|>
    basedInteger "0b" 2 (fun c => c == '0' || c == '1') <|> decimalInteger

def field (digits low high : Nat) : Reader Nat := do
  let n := digitsValue 10 (← exactly Char.isDigit digits)
  if low ≤ n ∧ n ≤ high then pure n else fail

def daysIn (year month : Nat) : Nat :=
  let leap := year % 4 = 0 ∧ (year % 100 ≠ 0 ∨ year % 400 = 0)
  if month = 2 then (if leap then 29 else 28)
  else if month = 4 ∨ month = 6 ∨ month = 9 ∨ month = 11 then 30 else 31

def date : Reader Unit := do
  let year ← field 4 0 9999
  char '-'
  let month ← field 2 1 12
  char '-'
  let day ← field 2 1 31
  if daysIn year month < day then fail else pure ()

def time : Reader Unit := do
  let _ ← field 2 0 23
  char ':'
  let _ ← field 2 0 59
  char ':'
  let _ ← field 2 0 60
  let _ ← opt do
    char '.'
    takeWhile1 Char.isDigit
  pure ()

def offset : Reader Unit := do
  match ← satisfy fun _ => true with
  | 'Z' | 'z' => pure ()
  | '+' | '-' => do
      let _ ← field 2 0 23
      char ':'
      let _ ← field 2 0 59
      pure ()
  | _ => fail

def moment : Reader Unit :=
  (do
    date
    let _ ← opt do
      let _ ← satisfy fun c => c == 'T' || c == 't' || c == ' '
      time
      opt offset
    pure ()) <|> time

def scalar : Reader Value := do
  match ← peek? with
  | some '"' | some '\'' => pure (.string (← string))
  | some 't' => do
      text "true"
      pure (.boolean true)
  | some 'f' => do
      text "false"
      pure (.boolean false)
  | _ =>
      (do moment; pure .moment) <|> (do pure (.float (← finiteFloat))) <|>
        (do pure (.float (← specialFloat))) <|> (do pure (.integer (← integer)))

end Replan.Toml
