import Replan.Source.DomainFile

set_option autoImplicit false

namespace Replan.Source

open Replan.Source.Parser

variable {R : Type} [Number R]

structure ProblemFile (R : Type) where
  name : String
  domain : Span × String
  objects : List (Span × Term)
  init : Init R
  goal : Goal R

def problemFile : Parser R (ProblemFile R) := parens do
  keyword "define"
  let (_, n) ← clause "problem" name
  let domain ← clause ":domain" name
  let _ ← opt requirementsSection
  let objects ← opt (clause ":objects" (typedList name))
  let init ← initSection
  let goal ← clause ":goal" query
  let reward ← opt (licensed ":goal-reward" [.rewards] number)
  let metric ← opt metricSection
  pure
    { name := n
      domain
      objects := objects.getD []
      init
      goal := ⟨goal, reward, metric⟩ }

namespace ProblemFile

def constant? (d : Domain R) (entry : Span × Term) : Bool := d.constants.any (Term.same entry.2)

def check (d : Domain R) (file : ProblemFile R) : Except (Error R) (Problem R) := do
  if file.domain.2 != d.name then
    throw (.located (.mismatchedDomain file.domain.2) file.domain.1)
  checkDistinct .duplicateObject (termNames file.objects)
  match file.objects.find? (constant? d) with
  | some entry => throw (.located (.duplicateObject entry.2.name) entry.1)
  | none => pure ()
  checkTypes d.types file.objects
  pure ⟨file.name, d, file.objects.map Prod.snd, file.init, file.goal⟩

end ProblemFile

end Source

def Problem.parse {R : Type} [Number R] (d : Domain R) (text : String) :
    Except (Error R) (Problem R) := do
  let requirements := RequirementSet.closure d.requirements
  let file ← Source.parseAll Source.problemFile (Source.Cursor.ofText text true requirements)
  file.check d

end Replan
