import Replan.Proofs.Query.Structure

set_option autoImplicit false

namespace Replan.Query

variable {R : Type}

theorem is_false_bind (σ : Substitution) (q : Query R) : (q.bind σ).isFalse = q.isFalse := by
  cases q with
  | disj parts => cases parts <;> rfl
  | _ => rfl

theorem is_always_bind (σ : Substitution) (q : Query R) : (q.bind σ).isAlways = q.isAlways := by
  cases q <;> rfl

theorem bind_constant_iff (σ : Substitution) (q : Query R) (x : R) :
    q.bind σ = constant x ↔ q = constant x := by
  cases q <;> simp [bind]

theorem conjuncts_bind (σ : Substitution) (q : Query R) :
    conjuncts (q.bind σ) = (conjuncts q).map (bind σ) := by
  cases q <;> simp [conjuncts, bind, bind_list]

theorem disjuncts_bind (σ : Substitution) (q : Query R) :
    disjuncts (q.bind σ) = (disjuncts q).map (bind σ) := by
  cases q <;> simp [disjuncts, bind, bind_list]

theorem conjoin_bind (σ : Substitution) (parts : List (Query R)) :
    conjoin (parts.map (bind σ)) = (conjoin parts).bind σ := by
  have someFalse : (parts.map (bind σ)).any isFalse = parts.any isFalse := by
    simp [List.any_map, Function.comp_def, is_false_bind]
  have flattened : (parts.map (bind σ)).flatMap conjuncts = (parts.flatMap conjuncts).map (bind σ) := by
    simp only [List.flatMap_map, List.map_flatMap, conjuncts_bind]
  unfold conjoin
  rw [someFalse, flattened]
  split
  · rfl
  · rcases parts.flatMap conjuncts with _ | ⟨q, _ | ⟨r, rest⟩⟩
    · rfl
    · rfl
    · simp [bind, bind_list]

theorem disjoin_bind (σ : Substitution) (parts : List (Query R)) :
    disjoin (parts.map (bind σ)) = (disjoin parts).bind σ := by
  have someAlways : (parts.map (bind σ)).any isAlways = parts.any isAlways := by
    simp [List.any_map, Function.comp_def, is_always_bind]
  have flattened : (parts.map (bind σ)).flatMap disjuncts = (parts.flatMap disjuncts).map (bind σ) := by
    simp only [List.flatMap_map, List.map_flatMap, disjuncts_bind]
  unfold disjoin
  rw [someAlways, flattened]
  split
  · rfl
  · rcases parts.flatMap disjuncts with _ | ⟨q, _ | ⟨r, rest⟩⟩
    · rfl
    · rfl
    · simp [bind, bind_list]

theorem negate_bind (σ : Substitution) (q : Query R) : negate (q.bind σ) = (negate q).bind σ := by
  cases q with
  | disj parts => cases parts <;> rfl
  | _ => rfl

theorem entail_bind (σ : Substitution) (premise conclusion : Query R) :
    entail (premise.bind σ) (conclusion.bind σ) = (entail premise conclusion).bind σ := by
  simp only [entail, is_always_bind, is_false_bind, apply_ite (bind σ)]
  rfl

variable [Number R]

theorem is_constant_bind (x : R) (σ : Substitution) (q : Query R) :
    isConstant x (q.bind σ) = isConstant x q := by
  cases q <;> rfl

def reduce (op : ArithmeticOp) (left right : Query R) : Query R :=
  match op with
  | .mul =>
      if isConstant Number.zero left || isConstant Number.zero right then constant Number.zero
      else if isConstant Number.one left then right
      else if isConstant Number.one right then left
      else arithmetic .mul left right
  | .add =>
      if isConstant Number.zero left then right
      else if isConstant Number.zero right then left
      else arithmetic .add left right
  | .sub => if isConstant Number.zero right then left else arithmetic .sub left right
  | .div => arithmetic .div left right

theorem combine_constants (op : ArithmeticOp) (x y : R) :
    combine op (constant x) (constant y) = constant (op.apply x y) := by
  cases op <;> rfl

theorem combine_open (op : ArithmeticOp) (left right : Query R)
    (notBoth : ∀ x y, left = constant x → right ≠ constant y) :
    combine op left right = reduce op left right := by
  unfold combine
  split
  · exact absurd rfl (notBoth _ _ rfl)
  all_goals rfl

theorem combine_bind (σ : Substitution) (op : ArithmeticOp) (left right : Query R) :
    combine op (left.bind σ) (right.bind σ) = (combine op left right).bind σ := by
  by_cases both : ∃ x y, left = constant x ∧ right = constant y
  · obtain ⟨x, y, rfl, rfl⟩ := both
    simp only [bind, combine_constants]
  · have notBoth : ∀ x y, left = constant x → right ≠ constant y :=
      fun x y atLeft atRight => both ⟨x, y, atLeft, atRight⟩
    have boundNotBoth : ∀ x y, left.bind σ = constant x → right.bind σ ≠ constant y := by
      simpa only [ne_eq, bind_constant_iff] using notBoth
    rw [combine_open _ _ _ notBoth, combine_open _ _ _ boundNotBoth]
    cases op <;> simp only [reduce, is_constant_bind, apply_ite (bind σ), bind]

theorem compare_bind (σ : Substitution) (op : Comparison) (left right : Query R) :
    compare op (left.bind σ) (right.bind σ) = (compare op left right).bind σ := by
  unfold compare
  split
  case h_1 x y atLeft atRight =>
    rw [bind_constant_iff] at atLeft atRight
    subst atLeft atRight
    simp only [apply_ite (bind σ)]
    rfl
  case h_2 notBoth =>
    split
    · exact absurd rfl (notBoth _ _ rfl)
    · rfl

theorem simplify_bind (q : Query R) (σ : Substitution) : (q.bind σ).simplify = q.simplify.bind σ := by
  induction q generalizing σ with
  | always => rfl
  | fact a => rfl
  | fluent a => rfl
  | constant x => rfl
  | arithmetic op left right leftIH rightIH =>
      simp only [bind, simplify, leftIH, rightIH, combine_bind]
  | comparison op left right leftIH rightIH =>
      simp only [bind, simplify, leftIH, rightIH, compare_bind]
  | conj parts ih =>
      simp only [bind, simplify, bind_list, simplify_list, List.map_map, ← conjoin_bind]
      congr 1
      exact List.map_congr_left fun q member => ih q member σ
  | disj parts ih =>
      simp only [bind, simplify, bind_list, simplify_list, List.map_map, ← disjoin_bind]
      congr 1
      exact List.map_congr_left fun q member => ih q member σ
  | neg body ih => simp only [bind, simplify, ih, negate_bind]
  | imply premise conclusion premiseIH conclusionIH =>
      simp only [bind, simplify, premiseIH, conclusionIH, entail_bind]
  | forAll vars body ih =>
      -- The variables shadow the same values on both sides.
      simp only [bind, simplify, ih, quantify, is_always_bind, apply_ite (bind σ)]
  | forSome vars body ih =>
      simp only [bind, simplify, ih, quantify, is_always_bind, apply_ite (bind σ)]

theorem eval_bind (q : Query R) (s : State R) (σ : Substitution) (σs : List Substitution) :
    (q.bind σ).evalUnder s σs = q.evalUnder s (σ :: σs) := by
  induction q generalizing σ σs with
  | always => rfl
  | fact a => rfl
  | fluent a => rfl
  | constant x => rfl
  | arithmetic op left right leftIH rightIH => simp only [bind, evalUnder, leftIH, rightIH]
  | comparison op left right leftIH rightIH => simp only [bind, evalUnder, leftIH, rightIH]
  | conj parts ih =>
      simp only [bind, evalUnder, bind_list, all_under, List.all_map, Function.comp_def]
      congr 1
      rw [Bool.eq_iff_iff, List.all_eq_true, List.all_eq_true]
      exact forall₂_congr fun q member => by rw [ih q member]
  | disj parts ih =>
      simp only [bind, evalUnder, bind_list, any_under, List.any_map, Function.comp_def]
      congr 1
      rw [Bool.eq_iff_iff, List.any_eq_true, List.any_eq_true]
      exact exists_congr fun q => and_congr_right fun member => by rw [ih q member]
  | neg body ih => simp only [bind, evalUnder, ih]
  | imply premise conclusion premiseIH conclusionIH =>
      simp only [bind, evalUnder, premiseIH, conclusionIH]
  | forAll vars body ih => simp only [bind, evalUnder, ih, List.map_cons, List.cons_append]
  | forSome vars body ih => simp only [bind, evalUnder, ih, List.map_cons, List.cons_append]

theorem holds_bind (q : Query R) (s : State R) (σ : Substitution) :
    (q.bind σ).holds s = (q.evalUnder s [σ]).asBool := by
  rw [holds, eval, eval_bind]

end Replan.Query
