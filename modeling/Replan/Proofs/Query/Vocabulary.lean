import Replan.Effect
import Replan.Proofs.Query.Structure

set_option autoImplicit false

namespace Replan

def Query.Numeric {R : Type} : Query R → Prop
  | fluent _ => True
  | constant _ => True
  | arithmetic _ left right => Numeric left ∧ Numeric right
  | _ => False

structure Vocabulary (R : Type) where
  fact : Atom → Prop := fun _ => True
  fluent : Atom → Prop := fun _ => True
  forAll : List Term → Prop := fun _ => True
  forSome : List Term → Prop := fun _ => True
  assigned : AssignOp → Atom → Prop := fun _ _ => True
  operand : Query R → Prop := fun _ => True
  chance : Prop := True

namespace Vocabulary

variable {R : Type}

def anything (R : Type) : Vocabulary R := {}

def numericOperands (R : Type) : Vocabulary R := { operand := Query.Numeric }

def fluentless (R : Type) : Vocabulary R := { fluent := fun _ => False }

-- Existential quantifiers have an object for every variable.
def populated (R : Type) (world : Universe) : Vocabulary R :=
  { forSome := fun vars => ∀ x ∈ vars, world.objectsOf x.kind ≠ [] }

-- They have at least one binding, which comes to the same.
def reached (R : Type) (world : Universe) : Vocabulary R :=
  { forSome := fun vars => world.bindings vars ≠ [] }

def certain (v : Vocabulary R) : Vocabulary R := { v with chance := False }

def both (v w : Vocabulary R) : Vocabulary R where
  fact a := v.fact a ∧ w.fact a
  fluent a := v.fluent a ∧ w.fluent a
  forAll vars := v.forAll vars ∧ w.forAll vars
  forSome vars := v.forSome vars ∧ w.forSome vars
  assigned op a := v.assigned op a ∧ w.assigned op a
  operand q := v.operand q ∧ w.operand q
  chance := v.chance ∧ w.chance

structure Below (v w : Vocabulary R) : Prop where
  fact : ∀ a, v.fact a → w.fact a
  fluent : ∀ a, v.fluent a → w.fluent a
  forAll : ∀ vars, v.forAll vars → w.forAll vars
  forSome : ∀ vars, v.forSome vars → w.forSome vars
  operand : ∀ q, v.operand q → w.operand q

theorem below_self (v : Vocabulary R) : v.Below v :=
  ⟨fun _ => id, fun _ => id, fun _ => id, fun _ => id, fun _ => id⟩

theorem below_certain (v : Vocabulary R) : v.Below v.certain :=
  ⟨fun _ => id, fun _ => id, fun _ => id, fun _ => id, fun _ => id⟩

theorem certain_below (v : Vocabulary R) : v.certain.Below v :=
  ⟨fun _ => id, fun _ => id, fun _ => id, fun _ => id, fun _ => id⟩

theorem both_below_left (v w : Vocabulary R) : (v.both w).Below v :=
  ⟨fun _ => And.left, fun _ => And.left, fun _ => And.left, fun _ => And.left, fun _ => And.left⟩

theorem both_below_right (v w : Vocabulary R) : (v.both w).Below w :=
  ⟨fun _ => And.right, fun _ => And.right, fun _ => And.right, fun _ => And.right, fun _ => And.right⟩

end Vocabulary

namespace Query

variable {R : Type}

mutual
def Within (v : Vocabulary R) : Query R → Prop
  | always => True
  | fact a => v.fact a
  | fluent a => v.fluent a
  | constant _ => True
  | arithmetic _ left right => (v.operand left ∧ Within v left) ∧ v.operand right ∧ Within v right
  | comparison _ left right => (v.operand left ∧ Within v left) ∧ v.operand right ∧ Within v right
  | conj parts => WithinList v parts
  | disj parts => WithinList v parts
  | neg body => Within v body
  | imply premise conclusion => Within v premise ∧ Within v conclusion
  | forAll vars body => v.forAll vars ∧ Within v body
  | forSome vars body => v.forSome vars ∧ Within v body

def WithinList (v : Vocabulary R) : List (Query R) → Prop
  | [] => True
  | q :: qs => Within v q ∧ WithinList v qs
end

theorem within_list (v : Vocabulary R) (qs : List (Query R)) :
    WithinList v qs ↔ ∀ q ∈ qs, Within v q := by
  induction qs with
  | nil => simp [WithinList]
  | cons q qs ih => simp [WithinList, ih]

theorem within_below (v w : Vocabulary R) (below : v.Below w) (q : Query R) (within : q.Within v) :
    q.Within w := by
  induction q with
  | always => trivial
  | fact a => exact below.fact a within
  | fluent a => exact below.fluent a within
  | constant x => trivial
  | arithmetic op left right leftIH rightIH =>
      obtain ⟨⟨leftOperand, leftWithin⟩, rightOperand, rightWithin⟩ := within
      exact ⟨⟨below.operand left leftOperand, leftIH leftWithin⟩,
        below.operand right rightOperand, rightIH rightWithin⟩
  | comparison op left right leftIH rightIH =>
      obtain ⟨⟨leftOperand, leftWithin⟩, rightOperand, rightWithin⟩ := within
      exact ⟨⟨below.operand left leftOperand, leftIH leftWithin⟩,
        below.operand right rightOperand, rightIH rightWithin⟩
  | conj parts ih =>
      exact (within_list w parts).mpr fun q member => ih q member ((within_list v parts).mp within q member)
  | disj parts ih =>
      exact (within_list w parts).mpr fun q member => ih q member ((within_list v parts).mp within q member)
  | neg body ih => exact ih within
  | imply premise conclusion premiseIH conclusionIH =>
      exact ⟨premiseIH within.1, conclusionIH within.2⟩
  | forAll vars body ih => exact ⟨below.forAll vars within.1, ih within.2⟩
  | forSome vars body ih => exact ⟨below.forSome vars within.1, ih within.2⟩

theorem within_anything (q : Query R) : q.Within (Vocabulary.anything R) := by
  induction q with
  | conj parts ih => exact (within_list _ parts).mpr ih
  | disj parts ih => exact (within_list _ parts).mpr ih
  | neg body ih => exact ih
  | imply premise conclusion premiseIH conclusionIH => exact ⟨premiseIH, conclusionIH⟩
  | arithmetic op left right leftIH rightIH => exact ⟨⟨trivial, leftIH⟩, trivial, rightIH⟩
  | comparison op left right leftIH rightIH => exact ⟨⟨trivial, leftIH⟩, trivial, rightIH⟩
  | forAll vars body ih => exact ⟨trivial, ih⟩
  | forSome vars body ih => exact ⟨trivial, ih⟩
  | always | fact | fluent | constant => trivial

theorem within_both (v w : Vocabulary R) (q : Query R) (first : q.Within v) (second : q.Within w) :
    q.Within (v.both w) := by
  induction q with
  | always | constant => trivial
  | fact | fluent => exact ⟨first, second⟩
  | conj parts ih =>
      exact (within_list _ parts).mpr fun q member =>
        ih q member ((within_list v parts).mp first q member) ((within_list w parts).mp second q member)
  | disj parts ih =>
      exact (within_list _ parts).mpr fun q member =>
        ih q member ((within_list v parts).mp first q member) ((within_list w parts).mp second q member)
  | neg body ih => exact ih first second
  | imply premise conclusion premiseIH conclusionIH =>
      exact ⟨premiseIH first.1 second.1, conclusionIH first.2 second.2⟩
  | arithmetic op left right leftIH rightIH | comparison op left right leftIH rightIH =>
      obtain ⟨⟨leftOperand, leftWithin⟩, rightOperand, rightWithin⟩ := first
      obtain ⟨⟨leftOperand', leftWithin'⟩, rightOperand', rightWithin'⟩ := second
      exact ⟨⟨⟨leftOperand, leftOperand'⟩, leftIH leftWithin leftWithin'⟩,
        ⟨rightOperand, rightOperand'⟩, rightIH rightWithin rightWithin'⟩
  | forAll vars body ih | forSome vars body ih =>
      exact ⟨⟨first.1, second.1⟩, ih first.2 second.2⟩

theorem conjuncts_within (v : Vocabulary R) (q : Query R) (within : q.Within v) :
    ∀ part ∈ conjuncts q, part.Within v := by
  cases q with
  | always => simp [conjuncts]
  | conj parts => exact (within_list v parts).mp within
  | _ => simpa [conjuncts] using within

theorem disjuncts_within (v : Vocabulary R) (q : Query R) (within : q.Within v) :
    ∀ part ∈ disjuncts q, part.Within v := by
  cases q with
  | disj parts => exact (within_list v parts).mp within
  | _ => simpa [disjuncts] using within

theorem conjoin_within (v : Vocabulary R) (parts : List (Query R)) (each : ∀ q ∈ parts, q.Within v) :
    (conjoin parts).Within v := by
  have flat : ∀ q ∈ parts.flatMap conjuncts, q.Within v := by
    intro q member
    obtain ⟨whole, inParts, inWhole⟩ := List.mem_flatMap.mp member
    exact conjuncts_within v whole (each whole inParts) q inWhole
  unfold conjoin
  split
  · trivial
  · generalize parts.flatMap conjuncts = found at flat ⊢
    rcases found with _ | ⟨q, _ | ⟨r, rest⟩⟩
    · trivial
    · exact flat q List.mem_cons_self
    · exact (within_list v _).mpr flat

theorem disjoin_within (v : Vocabulary R) (parts : List (Query R)) (each : ∀ q ∈ parts, q.Within v) :
    (disjoin parts).Within v := by
  have flat : ∀ q ∈ parts.flatMap disjuncts, q.Within v := by
    intro q member
    obtain ⟨whole, inParts, inWhole⟩ := List.mem_flatMap.mp member
    exact disjuncts_within v whole (each whole inParts) q inWhole
  unfold disjoin
  split
  · trivial
  · generalize parts.flatMap disjuncts = found at flat ⊢
    rcases found with _ | ⟨q, _ | ⟨r, rest⟩⟩
    · trivial
    · exact flat q List.mem_cons_self
    · exact (within_list v _).mpr flat

theorem negate_within (v : Vocabulary R) (q : Query R) (within : q.Within v) : (negate q).Within v := by
  cases q with
  | always => trivial
  | disj parts => cases parts <;> exact within
  | _ => exact within

theorem entail_within (v : Vocabulary R) (premise conclusion : Query R) (premiseWithin : premise.Within v)
    (conclusionWithin : conclusion.Within v) : (entail premise conclusion).Within v := by
  unfold entail
  split
  · exact conclusionWithin
  · split
    · trivial
    · exact ⟨premiseWithin, conclusionWithin⟩

variable [Number R]

theorem combine_within (v : Vocabulary R) (op : ArithmeticOp) (left right : Query R)
    (within : (arithmetic op left right).Within v) : (combine op left right).Within v := by
  unfold combine
  split
  · trivial
  · split
    · trivial
    · split
      · exact within.2.2
      · split
        · exact within.1.2
        · exact within
  · split
    · exact within.2.2
    · split
      · exact within.1.2
      · exact within
  · split
    · exact within.1.2
    · exact within
  · exact within

theorem compare_within (v : Vocabulary R) (op : Comparison) (left right : Query R)
    (within : (comparison op left right).Within v) : (compare op left right).Within v := by
  unfold compare
  split
  · split <;> trivial
  · exact within

theorem simplify_within (v : Vocabulary R) (kept : ∀ q, v.operand q → v.operand q.simplify) (q : Query R)
    (within : q.Within v) : q.simplify.Within v := by
  induction q with
  | always => trivial
  | fact a => exact within
  | fluent a => exact within
  | constant x => trivial
  | arithmetic op left right leftIH rightIH =>
      obtain ⟨⟨leftOperand, leftWithin⟩, rightOperand, rightWithin⟩ := within
      exact combine_within v op _ _
        ⟨⟨kept left leftOperand, leftIH leftWithin⟩, kept right rightOperand, rightIH rightWithin⟩
  | comparison op left right leftIH rightIH =>
      obtain ⟨⟨leftOperand, leftWithin⟩, rightOperand, rightWithin⟩ := within
      exact compare_within v op _ _
        ⟨⟨kept left leftOperand, leftIH leftWithin⟩, kept right rightOperand, rightIH rightWithin⟩
  | conj parts ih =>
      rw [simplify, simplify_list]
      refine conjoin_within v _ fun q member => ?_
      obtain ⟨part, inParts, rfl⟩ := List.mem_map.mp member
      exact ih part inParts ((within_list v parts).mp within part inParts)
  | disj parts ih =>
      rw [simplify, simplify_list]
      refine disjoin_within v _ fun q member => ?_
      obtain ⟨part, inParts, rfl⟩ := List.mem_map.mp member
      exact ih part inParts ((within_list v parts).mp within part inParts)
  | neg body ih => exact negate_within v _ (ih within)
  | imply premise conclusion premiseIH conclusionIH =>
      exact entail_within v _ _ (premiseIH within.1) (conclusionIH within.2)
  | forAll vars body ih =>
      rw [simplify, quantify]
      split
      · trivial
      · exact ⟨within.1, ih within.2⟩
  | forSome vars body ih =>
      rw [simplify, quantify]
      split
      · trivial
      · exact ⟨within.1, ih within.2⟩

end Query

end Replan
