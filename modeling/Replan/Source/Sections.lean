import Replan.Source.Formula
import Replan.Problem

set_option autoImplicit false

namespace Replan.Source

open Replan.Source.Parser

variable {R : Type} {α : Type}

def anyRequirement : Parser R Requirement :=
  firstOf (as .strips (keyword ":strips"))
    ((Requirement.all.drop 1).map fun r => as r (keyword r.keyword))

/-- The declared requirements. They and what they imply hold for the rest of the text. -/
def requirementsSection : Parser R RequirementSet := do
  let declared ← parens do
    keyword ":requirements"
    cut (many1 anyRequirement)
  declare (RequirementSet.closure declared)
  pure (RequirementSet.ofList declared)

def clause (w : String) (body : Parser R α) : Parser R α := parens do
  keyword w
  cut body

def licensed (w : String) (oneOf : RequirementSet) (body : Parser R α) : Parser R α := parens do
  requires oneOf (keyword w)
  cut body

def declaration : Parser R (Span × Atom) := parens do
  let (span, n) ← name
  let args ← typedList variableName
  pure (span, ⟨n, args.map Prod.snd⟩)

def predicatesSection : Parser R (List (Span × Atom)) := clause ":predicates" (many declaration)

def functionsSection : Parser R (List Atom) :=
  licensed ":functions" fluentRequirements (many do
    let (_, f) ← declaration
    let _ ← opt do
      sign '-'
      keyword "number"
    pure f)

def direction : Parser R Direction :=
  either (as .minimize (keyword "minimize")) (as .maximize (keyword "maximize"))

variable [Number R]

def actionSection : Parser R (Action R × List (Span × Term)) := named .expectedAction <|
  clause ":action" do
    let (_, n) ← name
    let parameters ← opt do
      keyword ":parameters"
      parens (typedList variableName)
    let precondition ← opt do
      keyword ":precondition"
      query
    let effect ← opt do
      keyword ":effect"
      effect
    let spanned := parameters.getD []
    pure (⟨n, spanned.map Prod.snd, precondition.getD .always, effect.getD .skip, none⟩, spanned)

def initElement : Parser R (Ground × Option R) :=
  either
    (parens do
      keyword "="
      let fluent ← atom
      let value ← number
      pure (fluent.ground, some value))
    (do
      let fact ← atom
      pure (fact.ground, none))

def initOfElements (elements : List (Ground × Option R)) : Init R :=
  elements.foldl
    (fun init element =>
      match element.2 with
      | none => { init with facts := Sorted.insert element.1 init.facts }
      | some value => { init with values := Sorted.put element.1 value init.values })
    ⟨[], []⟩

def initSection : Parser R (Init R) := do
  let elements ← clause ":init" (many initElement)
  pure (initOfElements elements)

def metricSection : Parser R (Metric R) := clause ":metric" do
  let towards ← direction
  let expression ← expression
  pure ⟨towards, expression⟩

end Replan.Source
