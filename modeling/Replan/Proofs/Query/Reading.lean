import Replan.Proofs.Query.Vocabulary

set_option autoImplicit false

namespace Replan

variable {R : Type} [Number R]

structure State.ReadAlike (v : Vocabulary R) (s s' : State R) : Prop where
  facts : ∀ a σs, v.fact a → s.holds (a.bindAll σs).ground = s'.holds (a.bindAll σs).ground
  fluents : ∀ a σs, v.fluent a → s.value (a.bindAll σs).ground = s'.value (a.bindAll σs).ground
  universal : ∀ vars, v.forAll vars → s.world.bindings vars = s'.world.bindings vars
  existential : ∀ vars, v.forSome vars → s.world.bindings vars = s'.world.bindings vars

namespace Query

theorem eval_alike (v : Vocabulary R) (s s' : State R) (alike : s.ReadAlike v s') (q : Query R) (within : q.Within v)
    (σs : List Substitution) : q.evalUnder s σs = q.evalUnder s' σs := by
  induction q generalizing σs with
  | always => rfl
  | constant x => rfl
  | fact a => rw [evalUnder, evalUnder, alike.facts a σs within]
  | fluent a => rw [evalUnder, evalUnder, alike.fluents a σs within]
  | arithmetic op left right leftIH rightIH => rw [evalUnder, evalUnder, leftIH within.1.2, rightIH within.2.2]
  | comparison op left right leftIH rightIH => rw [evalUnder, evalUnder, leftIH within.1.2, rightIH within.2.2]
  | conj parts ih =>
      rw [evalUnder, evalUnder, all_under, all_under]
      refine congrArg Value.truth (Bool.eq_iff_iff.mpr ?_)
      rw [List.all_eq_true, List.all_eq_true]
      refine forall₂_congr fun q member => ?_
      rw [ih q member ((within_list v parts).mp within q member)]
  | disj parts ih =>
      rw [evalUnder, evalUnder, any_under, any_under]
      refine congrArg Value.truth (Bool.eq_iff_iff.mpr ?_)
      rw [List.any_eq_true, List.any_eq_true]
      refine exists_congr fun q => and_congr_right fun member => ?_
      rw [ih q member ((within_list v parts).mp within q member)]
  | neg body ih => rw [evalUnder, evalUnder, ih within]
  | imply premise conclusion premiseIH conclusionIH =>
      rw [evalUnder, evalUnder, premiseIH within.1, conclusionIH within.2]
  | forAll vars body ih =>
      rw [evalUnder, evalUnder, alike.universal vars within.1]
      simp only [ih within.2]
  | forSome vars body ih =>
      rw [evalUnder, evalUnder, alike.existential vars within.1]
      simp only [ih within.2]

end Query

end Replan
