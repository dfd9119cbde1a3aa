import Replan.Query

set_option autoImplicit false

namespace Replan.Query

variable {R : Type} [Number R]

mutual
def text : Query R → String
  | always => "(and)"
  | fact a => a.text
  | fluent a => a.text
  | constant x => Number.source x
  | arithmetic op left right => "(" ++ op.symbol ++ " " ++ text left ++ " " ++ text right ++ ")"
  | comparison op left right => "(" ++ op.symbol ++ " " ++ text left ++ " " ++ text right ++ ")"
  | conj parts => "(and" ++ listText parts ++ ")"
  | disj parts => "(or" ++ listText parts ++ ")"
  | neg body => "(not " ++ text body ++ ")"
  | imply premise conclusion => "(imply " ++ text premise ++ " " ++ text conclusion ++ ")"
  | forAll vars body => "(forall (" ++ Term.listText vars ++ ") " ++ text body ++ ")"
  | forSome vars body => "(exists (" ++ Term.listText vars ++ ") " ++ text body ++ ")"

def listText : List (Query R) → String
  | [] => ""
  | q :: qs => " " ++ text q ++ listText qs
end

end Replan.Query
