set_option autoImplicit false

namespace Replan.Text

def strip? : List Char → List Char → Option (List Char)
  | [], text => some text
  | _ :: _, [] => none
  | m :: mark, c :: text => if m = c then strip? mark text else none

def stripAnyCase? : List Char → List Char → Option (List Char)
  | [], text => some text
  | _ :: _, [] => none
  | m :: mark, c :: text => if m = c.toLower then stripAnyCase? mark text else none

end Replan.Text
