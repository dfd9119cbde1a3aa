import Replan.Number
import Replan.Number.Numeral
import Replan.Plan
import Replan.Text

set_option autoImplicit false

namespace Replan.Output

def isWhite (c : Char) : Bool :=
  let n := c.toNat
  (0x09 ≤ n && n ≤ 0x0D) || n == 0x20 || n == 0x85 || n == 0xA0 || n == 0x1680 ||
    (0x2000 ≤ n && n ≤ 0x200A) || n == 0x2028 || n == 0x2029 || n == 0x202F || n == 0x205F ||
    n == 0x3000

/-- Lines without their ends. A line ends with a line feed, which a carriage return may precede; at
the end of the text nothing need end it. -/
def lines : List Char → List (List Char)
  | [] => []
  | '\n' :: rest => [] :: lines rest
  | '\r' :: '\n' :: rest => [] :: lines rest
  | c :: rest =>
      match lines rest with
      | [] => [[c]]
      | line :: more => (c :: line) :: more

def words : List Char → List (List Char)
  | [] => []
  | [c] => if isWhite c then [] else [[c]]
  | c :: d :: rest =>
      if isWhite c then words (d :: rest)
      else if isWhite d then [c] :: words (d :: rest)
      else
        match words (d :: rest) with
        | [] => [[c]]
        | word :: more => (c :: word) :: more

def trimStart (cs : List Char) : List Char := cs.dropWhile isWhite

def trim (cs : List Char) : List Char := (trimStart (trimStart cs).reverse).reverse

def from? (mark : List Char) : List Char → Option (List Char)
  | [] => if mark.isEmpty then some [] else none
  | c :: rest => if mark.isPrefixOf (c :: rest) then some (c :: rest) else from? mark rest

def contains (mark cs : List Char) : Bool := (from? mark cs).isSome

def skipSpaces (cs : List Char) : List Char := cs.dropWhile fun c => c == ' ' || c == '\t'

def step? (cs : List Char) : Option Ground :=
  match (words cs).map fun w => String.ofList (w.map Char.toLower) with
  | [] => none
  | name :: args => some ⟨name, args⟩

def mantissa? (cs : List Char) : Option (List Char × List Char) :=
  let whole := cs.takeWhile Char.isDigit
  match whole, cs.dropWhile Char.isDigit with
  | [], '.' :: rest =>
      let fraction := rest.takeWhile Char.isDigit
      if fraction.isEmpty then none else some ('.' :: fraction, rest.dropWhile Char.isDigit)
  | [], _ => none
  | _, '.' :: rest =>
      some (whole ++ '.' :: rest.takeWhile Char.isDigit, rest.dropWhile Char.isDigit)
  | _, rest => some (whole, rest)

def signed : List Char → List Char × List Char
  | '+' :: rest => (['+'], rest)
  | '-' :: rest => (['-'], rest)
  | cs => ([], cs)

def exponent? : List Char → Option (List Char × List Char)
  | [] => some ([], [])
  | c :: rest =>
      if c = 'e' ∨ c = 'E' then
        let (sign, rest) := signed rest
        let digits := rest.takeWhile Char.isDigit
        if digits.isEmpty then none
        else some (c :: sign ++ digits, rest.dropWhile Char.isDigit)
      else some ([], c :: rest)

def numeral? (cs : List Char) : Option (List Char × List Char) :=
  let (sign, afterSign) := signed cs
  match mantissa? afterSign with
  | none => none
  | some (mantissa, afterMantissa) =>
      (exponent? afterMantissa).map fun (exponent, rest) => (sign ++ mantissa ++ exponent, rest)

def beginsNumeral (cs : List Char) : Bool := (mantissa? (signed cs).2).isSome

def number? (cs : List Char) : Option (Float × List Char) :=
  if beginsNumeral cs then
    match numeral? cs with
    | none => none
    | some (digits, rest) => (Numeral.float? (String.ofList digits)).map fun x => (x, rest)
  else
    match Text.stripAnyCase? ['n', 'a', 'n'] cs with
    | some rest => some (Numeral.notANumber, rest)
    | none => (Text.stripAnyCase? ['i', 'n', 'f'] cs).map fun rest => (Nearest.infinity, rest)

def labelled? (label : String) (line : List Char) : Option (Float × List Char) :=
  (Text.strip? label.toList (skipSpaces line)).bind fun rest => number? (skipSpaces rest)

end Replan.Output

namespace Replan

structure PlannerOutput where
  plan : Plan
  totalCost : Float
  elapsed : Option Float

end Replan
