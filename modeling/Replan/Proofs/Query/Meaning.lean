import Replan.Proofs.Number.Exact
import Replan.Proofs.Query.Substitution
import Replan.Proofs.Query.Vocabulary

set_option autoImplicit false

namespace Replan.Query

section Connectives

variable {R : Type} [Number R]

theorem is_false_truth (q : Query R) (isFalse : q.isFalse = true) (s : State R) (σs : List Substitution) :
    (q.evalUnder s σs).asBool = false := by
  cases q with
  | disj parts =>
      cases parts with
      | nil => rfl
      | cons part parts => cases isFalse
  | _ => cases isFalse

theorem is_always_truth (q : Query R) (isAlways : q.isAlways = true) (s : State R)
    (σs : List Substitution) : (q.evalUnder s σs).asBool = true := by
  cases q with
  | always => rfl
  | _ => cases isAlways

theorem conjuncts_truth (s : State R) (σs : List Substitution) (q : Query R) :
    ((conjuncts q).all fun part => (part.evalUnder s σs).asBool) = (q.evalUnder s σs).asBool := by
  cases q <;> simp [conjuncts, evalUnder, all_under]

theorem disjuncts_truth (s : State R) (σs : List Substitution) (q : Query R) :
    ((disjuncts q).any fun part => (part.evalUnder s σs).asBool) = (q.evalUnder s σs).asBool := by
  cases q <;> simp [disjuncts, evalUnder, any_under]

theorem conjoin_truth (s : State R) (σs : List Substitution) (parts : List (Query R)) :
    ((conjoin parts).evalUnder s σs).asBool = parts.all fun q => (q.evalUnder s σs).asBool := by
  have flat : ((parts.flatMap conjuncts).all fun q => (q.evalUnder s σs).asBool) =
      parts.all fun q => (q.evalUnder s σs).asBool := by
    simp only [List.all_flatMap, conjuncts_truth]
  unfold conjoin
  split
  · next someFalse =>
      obtain ⟨q, member, isFalse⟩ := List.any_eq_true.mp someFalse
      have fails := is_false_truth q isFalse s σs
      exact (List.all_eq_false.mpr ⟨q, member, by simp [fails]⟩).symm
  · rw [← flat]
    rcases parts.flatMap conjuncts with _ | ⟨q, _ | ⟨r, rest⟩⟩
    · rfl
    · simp
    · simp [evalUnder, all_under]

theorem disjoin_truth (s : State R) (σs : List Substitution) (parts : List (Query R)) :
    ((disjoin parts).evalUnder s σs).asBool = parts.any fun q => (q.evalUnder s σs).asBool := by
  have flat : ((parts.flatMap disjuncts).any fun q => (q.evalUnder s σs).asBool) =
      parts.any fun q => (q.evalUnder s σs).asBool := by
    simp only [List.any_flatMap, disjuncts_truth]
  unfold disjoin
  split
  · next someAlways =>
      obtain ⟨q, member, isAlways⟩ := List.any_eq_true.mp someAlways
      exact (List.any_eq_true.mpr ⟨q, member, is_always_truth q isAlways s σs⟩).symm
  · rw [← flat]
    rcases parts.flatMap disjuncts with _ | ⟨q, _ | ⟨r, rest⟩⟩
    · rfl
    · simp
    · simp [evalUnder, any_under]

theorem negate_truth (s : State R) (σs : List Substitution) (q : Query R) :
    ((negate q).evalUnder s σs).asBool = !(q.evalUnder s σs).asBool := by
  cases q with
  | disj parts => cases parts <;> rfl
  | neg body => simp [negate, evalUnder]
  | _ => rfl

theorem entail_truth (s : State R) (σs : List Substitution) (premise conclusion : Query R) :
    ((entail premise conclusion).evalUnder s σs).asBool =
      (!(premise.evalUnder s σs).asBool || (conclusion.evalUnder s σs).asBool) := by
  unfold entail
  split
  · next isAlways => simp [is_always_truth premise isAlways s σs]
  · split
    · next trivially =>
        rcases Bool.or_eq_true _ _ ▸ trivially with isAlways | isFalse
        · simp [evalUnder, is_always_truth conclusion isAlways s σs]
        · simp [evalUnder, is_false_truth premise isFalse s σs]
    · rfl

theorem compare_truth (s : State R) (σs : List Substitution) (op : Comparison) (left right : Query R) :
    ((compare op left right).evalUnder s σs).asBool =
      ((comparison op left right).evalUnder s σs).asBool := by
  unfold compare
  split
  · next x y =>
      simp only [evalUnder, Value.asNumber, Value.asBool]
      cases op.apply x y <;> rfl
  · rfl

end Connectives

theorem bindings_nonempty_iff (world : Universe) (vars : List Term) :
    world.bindings vars ≠ [] ↔ ∀ x ∈ vars, world.objectsOf x.kind ≠ [] := by
  have extended (partials : List Substitution) :
      vars.foldl
        (fun partials param =>
          partials.flatMap fun σ => (world.objectsOf param.kind).map fun o => σ.insert param.name o.name)
        partials ≠ [] ↔ partials ≠ [] ∧ ∀ x ∈ vars, world.objectsOf x.kind ≠ [] := by
    induction vars generalizing partials with
    | nil => simp
    | cons x vars ih =>
        rw [List.foldl_cons, ih, List.forall_mem_cons, ← and_assoc]
        refine and_congr_left fun _ => ?_
        cases world.objectsOf x.kind with
        | nil => simp
        | cons o os => cases partials <;> simp
  exact (extended [[]]).trans (and_iff_right (List.cons_ne_nil _ _))

section Folding

variable {R : Type} [Number R]

theorem combine_kept (op : ArithmeticOp) (left right : Query R) (leftNumeric : left.Numeric)
    (rightNumeric : right.Numeric) : (combine op left right).Numeric := by
  unfold combine
  split
  · trivial
  · split
    · trivial
    · split
      · exact rightNumeric
      · split
        · exact leftNumeric
        · exact ⟨leftNumeric, rightNumeric⟩
  · split
    · exact rightNumeric
    · split
      · exact leftNumeric
      · exact ⟨leftNumeric, rightNumeric⟩
  · split
    · exact leftNumeric
    · exact ⟨leftNumeric, rightNumeric⟩
  · exact ⟨leftNumeric, rightNumeric⟩

theorem numeric_kept (q : Query R) (numeric : q.Numeric) : q.simplify.Numeric := by
  induction q with
  | fluent | constant => trivial
  | arithmetic op left right leftIH rightIH =>
      exact combine_kept op _ _ (leftIH numeric.1) (rightIH numeric.2)
  | _ => cases numeric

-- Simplification gives operands of the vocabulary the value that they had.
structure Folds (v : Vocabulary R) : Prop where
  closed : ∀ op left right, v.operand left → v.operand right → v.operand (arithmetic op left right)
  same : ∀ q, v.operand q → q.Within v → ∀ s σs, q.simplify.evalUnder s σs = q.evalUnder s σs

theorem fluentless_value (q : Query R) (numeric : q.Numeric) (within : q.Within (Vocabulary.fluentless R)) :
    ∃ x, q.simplify = constant x ∧ ∀ s σs, q.evalUnder s σs = .number x := by
  induction q with
  | fluent a => exact within.elim
  | constant x => exact ⟨x, rfl, fun _ _ => rfl⟩
  | arithmetic op left right leftIH rightIH =>
      obtain ⟨x, leftConstant, leftValue⟩ := leftIH numeric.1 within.1.2
      obtain ⟨y, rightConstant, rightValue⟩ := rightIH numeric.2 within.2.2
      refine ⟨op.apply x y, ?_, fun s σs => ?_⟩
      · rw [simplify, leftConstant, rightConstant, combine_constants]
      · rw [evalUnder, leftValue, rightValue]
        rfl
  | _ => cases numeric

mutual
-- What simplification asks of a query: folding keeps the values that are compared, and a quantifier over a body that is
-- found trivially true has something to range over.
def Faithful (s : State R) : Query R → Prop
  | always => True
  | fact _ => True
  | fluent _ => True
  | constant _ => True
  | arithmetic op left right => ∀ σs,
      (arithmetic op left right).simplify.evalUnder s σs = (arithmetic op left right).evalUnder s σs
  | comparison _ left right =>
      (∀ σs, left.simplify.evalUnder s σs = left.evalUnder s σs) ∧
        ∀ σs, right.simplify.evalUnder s σs = right.evalUnder s σs
  | conj parts => FaithfulList s parts
  | disj parts => FaithfulList s parts
  | neg body => Faithful s body
  | imply premise conclusion => Faithful s premise ∧ Faithful s conclusion
  | forAll _ body => Faithful s body
  | forSome vars body => (body.isEmpty = true → s.world.bindings vars ≠ []) ∧ Faithful s body

def FaithfulList (s : State R) : List (Query R) → Prop
  | [] => True
  | q :: qs => Faithful s q ∧ FaithfulList s qs
end

theorem faithful_list (s : State R) (qs : List (Query R)) : FaithfulList s qs ↔ ∀ q ∈ qs, q.Faithful s := by
  induction qs with
  | nil => simp [FaithfulList]
  | cons q qs ih => rw [FaithfulList, ih, List.forall_mem_cons]

theorem faithful_truth (q : Query R) (s : State R) (σs : List Substitution) (faithful : q.Faithful s) :
    (q.simplify.evalUnder s σs).asBool = (q.evalUnder s σs).asBool := by
  induction q generalizing σs with
  | always => rfl
  | fact a => rfl
  | fluent a => rfl
  | constant x => rfl
  | arithmetic op left right _ _ => rw [faithful σs]
  | comparison op left right _ _ => rw [simplify, compare_truth, evalUnder, evalUnder, faithful.1, faithful.2]
  | conj parts ih =>
      rw [simplify, simplify_list, conjoin_truth, List.all_map, evalUnder, all_under, as_bool_truth,
        Bool.eq_iff_iff, List.all_eq_true, List.all_eq_true]
      refine forall₂_congr fun q member => ?_
      rw [Function.comp_apply, ih q member σs ((faithful_list s parts).mp faithful q member)]
  | disj parts ih =>
      rw [simplify, simplify_list, disjoin_truth, List.any_map, evalUnder, any_under, as_bool_truth,
        Bool.eq_iff_iff, List.any_eq_true, List.any_eq_true]
      refine exists_congr fun q => and_congr_right fun member => ?_
      rw [Function.comp_apply, ih q member σs ((faithful_list s parts).mp faithful q member)]
  | neg body ih =>
      rw [simplify, negate_truth, ih σs faithful]
      rfl
  | imply premise conclusion premiseIH conclusionIH =>
      rw [simplify, entail_truth, premiseIH σs faithful.1, conclusionIH σs faithful.2]
      rfl
  | forAll vars body ih =>
      have each (β : Substitution) := ih (σs.map (·.shadow vars) ++ [β]) faithful
      rw [simplify, quantify]
      split
      · next isAlways =>
          simp only [is_always_truth _ isAlways] at each
          simp [evalUnder, ← each]
      · simp only [evalUnder, each]
  | forSome vars body ih =>
      have each (β : Substitution) := ih (σs.map (·.shadow vars) ++ [β]) faithful.2
      rw [simplify, quantify]
      split
      · next isAlways =>
          obtain ⟨β, candidate⟩ := List.exists_mem_of_ne_nil _ (faithful.1 isAlways)
          simp only [is_always_truth _ isAlways] at each
          exact (List.any_eq_true.mpr ⟨β, candidate, (each β).symm⟩).symm
      · simp only [evalUnder, each]

theorem folded_faithful (v : Vocabulary R) (folds : Folds v) (q : Query R) (s : State R) (formed : q.Within v)
    (inhabited : q.Within (Vocabulary.populated R s.world)) : q.Faithful s := by
  induction q with
  | always | fact | fluent | constant => trivial
  | arithmetic op left right _ _ => exact folds.same _ (folds.closed op left right formed.1.1 formed.2.1) formed s
  | comparison op left right _ _ =>
      exact ⟨folds.same left formed.1.1 formed.1.2 s, folds.same right formed.2.1 formed.2.2 s⟩
  | conj parts ih | disj parts ih =>
      exact (faithful_list s parts).mpr fun q member =>
        ih q member ((within_list _ _).mp formed q member) ((within_list _ _).mp inhabited q member)
  | neg body ih => exact ih formed inhabited
  | imply premise conclusion premiseIH conclusionIH =>
      exact ⟨premiseIH formed.1 inhabited.1, conclusionIH formed.2 inhabited.2⟩
  | forAll vars body ih => exact ih formed.2 inhabited.2
  | forSome vars body ih =>
      exact ⟨fun _ => (bindings_nonempty_iff s.world vars).mpr inhabited.1, ih formed.2 inhabited.2⟩

theorem folded_truth (v : Vocabulary R) (folds : Folds v) (q : Query R) (s : State R) (σs : List Substitution)
    (formed : q.Within v) (inhabited : q.Within (Vocabulary.populated R s.world)) :
    (q.simplify.evalUnder s σs).asBool = (q.evalUnder s σs).asBool :=
  q.faithful_truth s σs (q.folded_faithful v folds s formed inhabited)

end Folding

section Laws

variable {R : Type} [Number R] [Number.Lawful R]

theorem is_constant_exact (x : R) (q : Query R) : isConstant x q = true ↔ q = constant x := by
  cases q <;> simp [isConstant, Number.Lawful.equal]

omit [Number.Lawful R] in
theorem numeric_value (q : Query R) (numeric : q.Numeric) (s : State R) (σs : List Substitution) :
    q.evalUnder s σs = .number (q.evalUnder s σs).asNumber := by
  cases q with
  | fluent | constant | arithmetic => rfl
  | _ => cases numeric

theorem reduce_numeric (op : ArithmeticOp) (left right : Query R) (leftNumeric : left.Numeric)
    (rightNumeric : right.Numeric) :
    (reduce op left right).Numeric ∧ ∀ s σs,
      (reduce op left right).evalUnder s σs = (arithmetic op left right).evalUnder s σs := by
  have kept (op : ArithmeticOp) : (arithmetic op left right).Numeric := ⟨leftNumeric, rightNumeric⟩
  have leftValue := numeric_value left leftNumeric
  have rightValue := numeric_value right rightNumeric
  cases op with
  | add =>
      simp only [reduce]
      split
      · next isZero =>
          rw [is_constant_exact] at isZero
          refine ⟨rightNumeric, fun s σs => ?_⟩
          rw [isZero, rightValue]
          simp [evalUnder, Value.asNumber, ArithmeticOp.apply, Number.Lawful.zeroAdd]
      · split
        · next isZero =>
            rw [is_constant_exact] at isZero
            refine ⟨leftNumeric, fun s σs => ?_⟩
            rw [isZero, leftValue]
            simp [evalUnder, Value.asNumber, ArithmeticOp.apply, Number.Lawful.addZero]
        · exact ⟨kept _, fun s σs => rfl⟩
  | sub =>
      simp only [reduce]
      split
      · next isZero =>
          rw [is_constant_exact] at isZero
          refine ⟨leftNumeric, fun s σs => ?_⟩
          rw [isZero, leftValue]
          simp [evalUnder, Value.asNumber, ArithmeticOp.apply, Number.Lawful.subZero]
      · exact ⟨kept _, fun s σs => rfl⟩
  | mul =>
      simp only [reduce]
      split
      · next isZero =>
          rw [Bool.or_eq_true, is_constant_exact, is_constant_exact] at isZero
          refine ⟨trivial, fun s σs => ?_⟩
          rcases isZero with isZero | isZero <;> rw [isZero] <;>
            simp [evalUnder, Value.asNumber, ArithmeticOp.apply, Number.Lawful.zeroMul, Number.Lawful.mulZero]
      · split
        · next isOne =>
            rw [is_constant_exact] at isOne
            refine ⟨rightNumeric, fun s σs => ?_⟩
            rw [isOne, rightValue]
            simp [evalUnder, Value.asNumber, ArithmeticOp.apply, Number.Lawful.oneMul]
        · split
          · next isOne =>
              rw [is_constant_exact] at isOne
              refine ⟨leftNumeric, fun s σs => ?_⟩
              rw [isOne, leftValue]
              simp [evalUnder, Value.asNumber, ArithmeticOp.apply, Number.Lawful.mulOne]
          · exact ⟨kept _, fun s σs => rfl⟩
  | div => exact ⟨kept _, fun s σs => rfl⟩

theorem combine_numeric (op : ArithmeticOp) (left right : Query R) (leftNumeric : left.Numeric)
    (rightNumeric : right.Numeric) :
    (combine op left right).Numeric ∧ ∀ s σs,
      (combine op left right).evalUnder s σs = (arithmetic op left right).evalUnder s σs := by
  by_cases both : ∃ x y, left = constant x ∧ right = constant y
  · obtain ⟨x, y, rfl, rfl⟩ := both
    rw [combine_constants]
    exact ⟨trivial, fun s σs => rfl⟩
  · rw [combine_open _ _ _ fun x y atLeft atRight => both ⟨x, y, atLeft, atRight⟩]
    exact reduce_numeric op left right leftNumeric rightNumeric

theorem simplify_numeric (q : Query R) (numeric : q.Numeric) :
    q.simplify.Numeric ∧ ∀ s σs, q.simplify.evalUnder s σs = q.evalUnder s σs := by
  induction q with
  | fluent a => exact ⟨trivial, fun s σs => rfl⟩
  | constant x => exact ⟨trivial, fun s σs => rfl⟩
  | arithmetic op left right leftIH rightIH =>
      obtain ⟨leftNumeric, leftValue⟩ := leftIH numeric.1
      obtain ⟨rightNumeric, rightValue⟩ := rightIH numeric.2
      obtain ⟨combined, value⟩ := combine_numeric op _ _ leftNumeric rightNumeric
      refine ⟨combined, fun s σs => ?_⟩
      rw [simplify, value, evalUnder, evalUnder, leftValue, rightValue]
  | _ => cases numeric

theorem simplify_stays_numeric (q : Query R) (numeric : q.Numeric) : q.simplify.Numeric :=
  (simplify_numeric q numeric).1

theorem simplify_truth (q : Query R) (s : State R) (σs : List Substitution)
    (formed : q.Within (Vocabulary.numericOperands R)) (inhabited : q.Within (Vocabulary.populated R s.world)) :
    (q.simplify.evalUnder s σs).asBool = (q.evalUnder s σs).asBool :=
  folded_truth (Vocabulary.numericOperands R)
    ⟨fun _ _ _ left right => ⟨left, right⟩, fun q numeric _ => (simplify_numeric q numeric).2⟩ q s σs formed inhabited

end Laws

theorem reached_below_populated (R : Type) (world : Universe) :
    (Vocabulary.reached R world).Below (Vocabulary.populated R world) :=
  ⟨fun _ => id, fun _ => id, fun _ => id, fun vars => (bindings_nonempty_iff world vars).mp, fun _ => id⟩

/-- Simplification keeps the truth of a query and the value of a numeric expression, by whichever division. -/
theorem simplification_keeps_meaning {K : Type} [ExactNumber K] (quotient : K → K → K) :
    letI := Number.dividing quotient
    (∀ (q : Query K) (s : State K), q.Within (Vocabulary.numericOperands K) →
      q.Within (Vocabulary.reached K s.world) → q.simplify.holds s = q.holds s) ∧
    ∀ (q : Query K) (s : State K), q.Numeric → q.simplify.eval s = q.eval s := by
  let _ := Number.dividing quotient
  have := Number.dividing_lawful quotient
  refine ⟨fun q s formed reached => ?_, fun q s numeric => (simplify_numeric q numeric).2 s []⟩
  exact simplify_truth q s [] formed (within_below _ _ (reached_below_populated K s.world) q reached)

def fuelAtom : Atom := ⟨"fuel", []⟩

def clearAndFuelled : Query ℚ :=
  .conj [.always, .forSome [⟨"?x", some "block"⟩] (.conj [.always, .fact ⟨"clear", [Term.untyped "?x"]⟩]),
    .neg (.neg (.comparison .atMost (.arithmetic .div (.fluent fuelAtom) (.constant 0))
      (.arithmetic .mul (.constant 1) (.fluent fuelAtom))))]

def fuelledState : State ℚ :=
  ⟨[⟨"clear", ["a"]⟩], [(fuelAtom.ground, 3)], 0, 0, ⟨[⟨"a", some "block"⟩], Hierarchy.empty⟩⟩

def fuelPerNothing : Query ℚ :=
  .arithmetic .add (.constant 0) (.arithmetic .div (.fluent fuelAtom) (.constant 0))

theorem simplification_keeps_meaning_fuelled :
    letI := Number.dividing fun x y : ℚ => if y = 0 then 1 else x / y
    clearAndFuelled.Within (Vocabulary.numericOperands ℚ) ∧
      clearAndFuelled.Within (Vocabulary.reached ℚ fuelledState.world) ∧
      clearAndFuelled.simplify.holds fuelledState = clearAndFuelled.holds fuelledState ∧
      clearAndFuelled.holds fuelledState = true ∧ fuelPerNothing.Numeric ∧
      fuelPerNothing.simplify.eval fuelledState = fuelPerNothing.eval fuelledState ∧
      fuelPerNothing.eval fuelledState = .number 1 := by
  let _ := Number.dividing fun x y : ℚ => if y = 0 then 1 else x / y
  obtain ⟨truth, value⟩ := simplification_keeps_meaning fun x y : ℚ => if y = 0 then 1 else x / y
  have formed : clearAndFuelled.Within (Vocabulary.numericOperands ℚ) :=
    ⟨trivial, ⟨trivial, trivial, trivial, trivial⟩, ⟨⟨⟨trivial, trivial⟩, ⟨trivial, trivial⟩, trivial, trivial⟩,
      ⟨trivial, trivial⟩, ⟨trivial, trivial⟩, trivial, trivial⟩, trivial⟩
  have some : fuelledState.world.bindings [⟨"?x", some "block"⟩] ≠ [] := by decide
  have reached : clearAndFuelled.Within (Vocabulary.reached ℚ fuelledState.world) :=
    ⟨trivial, ⟨some, trivial, trivial, trivial⟩, ⟨⟨trivial, ⟨trivial, trivial⟩, trivial, trivial⟩,
      trivial, ⟨trivial, trivial⟩, trivial, trivial⟩, trivial⟩
  have numeric : fuelPerNothing.Numeric := ⟨trivial, trivial, trivial⟩
  exact ⟨formed, reached, truth _ _ formed reached, by decide +kernel, numeric, value _ _ numeric, by decide +kernel⟩

end Replan.Query
