import Replan.Effect
import Replan.Query.Text

set_option autoImplicit false

namespace Replan.Effect

variable {R : Type} [Number R]

mutual
def text : Effect R → String
  | skip => "(and)"
  | add fact => fact.text
  | delete fact => "(not " ++ fact.text ++ ")"
  | conj parts => "(and" ++ listText parts ++ ")"
  | forAll vars body => "(forall (" ++ Term.listText vars ++ ") " ++ text body ++ ")"
  | when condition body => "(when " ++ condition.text ++ " " ++ text body ++ ")"
  | assign op fluent value =>
      "(" ++ op.keyword ++ " " ++ fluent.text ++ " " ++ value.text ++ ")"
  | probabilistic outcomes => "(probabilistic" ++ outcomesText outcomes ++ ")"

def listText : List (Effect R) → String
  | [] => ""
  | e :: es => " " ++ text e ++ listText es

def outcomesText : List (R × Effect R) → String
  | [] => ""
  | (p, e) :: rest => " " ++ Number.source p ++ " " ++ text e ++ outcomesText rest
end

end Replan.Effect
