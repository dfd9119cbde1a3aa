import Replan.Term

set_option autoImplicit false

namespace Replan

abbrev Plan := List Ground

namespace Plan

def common : Plan → Plan → Plan
  | a :: as, b :: bs => if a = b then a :: common as bs else []
  | _, _ => []

def commonOf : List Plan → Plan
  | [] => []
  | first :: rest => rest.foldl common first

def commonOfFound (plans : List (Option Plan)) : Plan := commonOf (plans.filterMap id)

end Plan

end Replan
