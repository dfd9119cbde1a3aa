import Replan.Query.Simplify

set_option autoImplicit false

namespace Replan.Query

variable {R : Type}

attribute [local simp] bind evalUnder simplify

@[elab_as_elim, induction_eliminator]
theorem structural {motive : Query R → Prop}
    (always : motive always)
    (fact : ∀ a, motive (fact a))
    (fluent : ∀ a, motive (fluent a))
    (constant : ∀ x, motive (constant x))
    (arithmetic : ∀ op left right, motive left → motive right → motive (arithmetic op left right))
    (comparison : ∀ op left right, motive left → motive right → motive (comparison op left right))
    (conj : ∀ parts, (∀ q ∈ parts, motive q) → motive (conj parts))
    (disj : ∀ parts, (∀ q ∈ parts, motive q) → motive (disj parts))
    (neg : ∀ body, motive body → motive (neg body))
    (imply : ∀ premise conclusion, motive premise → motive conclusion →
      motive (imply premise conclusion))
    (forAll : ∀ vars body, motive body → motive (forAll vars body))
    (forSome : ∀ vars body, motive body → motive (forSome vars body))
    (q : Query R) : motive q := by
  have recur (p : Query R) (_ : sizeOf p < sizeOf q) : motive p :=
    structural always fact fluent constant arithmetic comparison conj disj neg imply forAll forSome p
  -- A part is smaller than the list it stands in, which is smaller than the query.
  have part (parts : List (Query R)) (bound : sizeOf parts < sizeOf q) (p : Query R)
      (member : p ∈ parts) : motive p :=
    recur p (Nat.lt_trans (List.sizeOf_lt_of_mem member) bound)
  cases q with
  | always => exact always
  | fact a => exact fact a
  | fluent a => exact fluent a
  | constant x => exact constant x
  | arithmetic op left right =>
      exact arithmetic op left right (recur left (by grind)) (recur right (by grind))
  | comparison op left right =>
      exact comparison op left right (recur left (by grind)) (recur right (by grind))
  | conj parts => exact conj parts (part parts (by grind))
  | disj parts => exact disj parts (part parts (by grind))
  | neg body => exact neg body (recur body (by grind))
  | imply premise conclusion =>
      exact imply premise conclusion (recur premise (by grind)) (recur conclusion (by grind))
  | forAll vars body => exact forAll vars body (recur body (by grind))
  | forSome vars body => exact forSome vars body (recur body (by grind))
termination_by sizeOf q

theorem bind_list (σ : Substitution) (qs : List (Query R)) : bindList σ qs = qs.map (bind σ) := by
  induction qs with
  | nil => rfl
  | cons q qs ih => simp only [bindList, ih, List.map_cons]

variable [Number R]

@[simp]
theorem as_bool_truth (b : Bool) : (Value.truth b : Value R).asBool = b := rfl

theorem all_under (s : State R) (σs : List Substitution) (qs : List (Query R)) :
    allUnder s σs qs = qs.all fun q => (evalUnder s σs q).asBool := by
  induction qs with
  | nil => rfl
  | cons q qs ih => simp only [allUnder, ih, List.all_cons]

theorem any_under (s : State R) (σs : List Substitution) (qs : List (Query R)) :
    anyUnder s σs qs = qs.any fun q => (evalUnder s σs q).asBool := by
  induction qs with
  | nil => rfl
  | cons q qs ih => simp only [anyUnder, ih, List.any_cons]

theorem simplify_list (qs : List (Query R)) : simplifyList qs = qs.map simplify := by
  induction qs with
  | nil => rfl
  | cons q qs ih => simp only [simplifyList, ih, List.map_cons]

end Replan.Query
