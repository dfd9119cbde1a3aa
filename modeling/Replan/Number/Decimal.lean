set_option autoImplicit false

namespace Replan.Decimal

def digitValue (c : Char) : Nat := c.toNat - '0'.toNat

def valueFrom (before : Nat) (digits : List Char) : Nat :=
  digits.foldl (fun n c => 10 * n + digitValue c) before

def value (digits : List Char) : Nat := valueFrom 0 digits

def positional (n : Nat) (exponent : Int) : String :=
  let digits := Nat.toDigits 10 n
  match exponent with
  | .ofNat zeros => String.ofList (digits ++ List.replicate zeros '0')
  | .negSucc k =>
      let places := k + 1
      if places < digits.length then
        let whole := digits.length - places
        String.ofList (digits.take whole ++ '.' :: digits.drop whole)
      else
        String.ofList ('0' :: '.' :: (List.replicate (places - digits.length) '0' ++ digits))

end Replan.Decimal
