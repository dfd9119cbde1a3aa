import Replan.Source.Checks

set_option autoImplicit false

namespace Replan.Source

open Replan.Source.Parser

variable {R : Type} [Number R]

structure DomainFile (R : Type) where
  name : String
  requirements : RequirementSet
  types : List (Span × Term)
  constants : List (Span × Term)
  predicates : List (Span × Atom)
  functions : List Atom
  actions : List (Action R × List (Span × Term))

def domainFile : Parser R (DomainFile R) := parens do
  keyword "define"
  let (_, n) ← clause "domain" name
  let requirements ← opt requirementsSection
  let types ← opt (licensed ":types" [.typing] (typedList name))
  let constants ← opt (clause ":constants" (typedList name))
  let predicates ← opt predicatesSection
  let functions ← opt functionsSection
  let actions ← many actionSection
  pure
    { name := n
      requirements := requirements.getD []
      types := types.getD []
      constants := constants.getD []
      predicates := predicates.getD []
      functions := functions.getD []
      actions }

def hierarchy (declared : List (Span × Term)) : Hierarchy :=
  Hierarchy.ofPairs (declared.map fun entry => (entry.2.name, entry.2.kind.getD "object"))

def checkActions (types : Hierarchy) :
    List (Action R × List (Span × Term)) → Except (Error R) Unit
  | [] => .ok ()
  | entry :: rest => do
      checkTypes types entry.2
      checkActions types rest

namespace DomainFile

def check (file : DomainFile R) : Except (Error R) (Domain R) := do
  let types := hierarchy file.types
  checkDistinct .duplicateType (termNames file.types)
  checkTypes types file.types
  checkDistinct .duplicateObject (termNames file.constants)
  checkTypes types file.constants
  checkDistinct .duplicatePredicate (file.predicates.map fun entry => (entry.1, entry.2.name))
  checkActions types file.actions
  pure
    { name := file.name
      requirements := file.requirements
      types
      constants := file.constants.map Prod.snd
      predicates := file.predicates.map Prod.snd
      functions := file.functions
      actions := file.actions.map Prod.fst }

end DomainFile

end Source

def Domain.parse {R : Type} [Number R] (text : String) : Except (Error R) (Domain R) := do
  let file ← Source.parseAll Source.domainFile (Source.Cursor.ofText text false [])
  file.check

end Replan
