import Replan.Toml.Scalar

set_option autoImplicit false

namespace Replan.Toml

open Reader

def depthLimit : Nat := 80

def isBare (c : Char) : Bool := c.isAlphanum || c == '-' || c == '_'

def bareKey : Reader String := do
  pure (String.ofList (← takeWhile1 isBare))

def keyPart : Reader String := do
  spaces
  let part ← basicString <|> literalString <|> bareKey
  spaces
  pure part

def key : Reader (List String × String) := do
  let parts ← separated1 keyPart (char '.')
  match parts.getLast? with
  | none => fail
  | some last => if parts.length < depthLimit then pure (parts.dropLast, last) else fail

def padding : Reader Unit := do
  let _ ← many (newline <|> (do let _ ← takeWhile1 isSpace) <|> (do comment; newline))
  pure ()

def inlineTable (pairs : List ((List String × String) × Value)) : Reader Value :=
  let built := pairs.foldlM (fun (state : Origin × Fields) pair =>
    assign pair.1.1 pair.1.2 pair.2 state.1 state.2) (Origin.explicit, [])
  match built with
  | none => fail
  | some (_, fields) => pure (.table (finishFields fields))

def valueWithin : Nat → Reader Value
  | 0 => scalar
  | depth + 1 => do
      match ← peek? with
      | some '[' => do
          char '['
          let items ← separated (do
            padding
            let v ← valueWithin depth
            padding
            pure v) (char ',')
          if !items.isEmpty then
            let _ ← opt (char ',')
          padding
          char ']'
          pure (.array items)
      | some '{' => do
          char '\x7b'
          let pairs ← separated (do
            let k ← key
            char '='
            spaces
            let v ← valueWithin depth
            spaces
            pure (k, v)) (char ',')
          spaces
          char '\x7d'
          inlineTable pairs
      | _ => scalar

def value : Reader Value := valueWithin (depthLimit - 1)

def endOfLine : Reader Unit := do
  spaces
  let _ ← opt comment
  match ← peek? with
  | none => pure ()
  | some _ => newline

inductive Statement where
  | assignment (path : List String) (key : String) (v : Value)
  | header (path : List String) (key : String)
  | element (path : List String) (key : String)

def elementHeader : Reader Statement := do
  text "[["
  let (path, last) ← key
  text "]]"
  endOfLine
  pure (.element path last)

def tableHeader : Reader Statement := do
  char '['
  let (path, last) ← key
  char ']'
  endOfLine
  pure (.header path last)

def assignment : Reader Statement := do
  let (path, last) ← key
  char '='
  spaces
  let v ← value
  endOfLine
  pure (.assignment path last v)

def line : Reader (Option Statement) := do
  spaces
  match ← rest with
  | [] => fail
  | '\n' :: _ | '\r' :: _ => do
      newline
      pure none
  | '#' :: _ => do
      endOfLine
      pure none
  | '[' :: '[' :: _ => do
      let s ← elementHeader
      pure (some s)
  | '[' :: _ => do
      let s ← tableHeader
      pure (some s)
  | _ => do
      let s ← assignment
      pure (some s)

structure Draft where
  opened : List String
  root : Fields

def Draft.edit (d : Draft) (opened : List String) (edit : Edit) : Option Draft :=
  (edit .explicit d.root).map fun (_, root) => ⟨opened, root⟩

def Draft.apply (d : Draft) : Statement → Option Draft
  | .assignment path key v => d.edit d.opened (descend false (assign path key v) d.opened)
  | .header path key => d.edit (path ++ [key]) (descend false (openTable key) path)
  | .element path key => d.edit (path ++ [key]) (descend false (openElement key) path)

def parse? (text : String) : Option (List (String × Value)) :=
  let chars := match text.toList with
    | '\uFEFF' :: rest => rest
    | cs => cs
  match (many line).run chars with
  | none => none
  | some (statements, rest) =>
      if rest.all isSpace then
        ((statements.filterMap id).foldlM Draft.apply ⟨[], []⟩).map fun d => finishFields d.root
      else none

end Replan.Toml
