import Replan.Source.Sections

set_option autoImplicit false

namespace Replan.Source

variable {R : Type}

def firstSpan? (seen : List (Span × String)) (name : String) : Option Span :=
  (seen.find? fun entry => entry.2 == name).map Prod.fst

def checkDistinctFrom (kind : String → ErrorKind R) (seen : List (Span × String)) :
    List (Span × String) → Except (Error R) Unit
  | [] => .ok ()
  | entry :: rest =>
      match firstSpan? seen entry.2 with
      | some first => .error ⟨⟨kind entry.2, entry.1⟩, some ⟨.firstDefinedHere, first⟩⟩
      | none => checkDistinctFrom kind (seen ++ [entry]) rest

def checkDistinct (kind : String → ErrorKind R) (names : List (Span × String)) :
    Except (Error R) Unit :=
  checkDistinctFrom kind [] names

def termNames (terms : List (Span × Term)) : List (Span × String) :=
  terms.map fun entry => (entry.1, entry.2.name)

def undeclared? (types : Hierarchy) (t : Term) : Option String :=
  t.kind.filter fun kind => !types.contains kind

def checkTypes (types : Hierarchy) : List (Span × Term) → Except (Error R) Unit
  | [] => .ok ()
  | entry :: rest =>
      match undeclared? types entry.2 with
      | some kind => .error (.located (.undefinedType kind) entry.1)
      | none => checkTypes types rest

def parseAll {α : Type} (p : Parser R α) (start : Cursor) : Except (Error R) α :=
  let whole : Parser R α := do
    blanks
    p
  match whole start with
  | .done a next =>
      if next.rest.isEmpty then .ok a else .error (.located .trailingInput next.span)
  | .miss e => .error ⟨e, none⟩
  | .fail e => .error ⟨e, none⟩

end Replan.Source
