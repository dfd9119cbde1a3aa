import Mathlib.Algebra.Order.Field.Basic
import Replan.Proofs.Determinize.Naming
import Replan.Proofs.Effect.Totals

set_option autoImplicit false

namespace Replan

open Results

variable {R : Type} [Number R]

theorem Effect.add_cost_within (v : Vocabulary R) (offset : R) (increase : v.assigned .increase totalCostAtom)
    (constant : v.operand (.constant offset)) (simplified : ∀ q, v.operand q → v.operand q.simplify) (e : Effect R)
    (within : e.Within v) : (e.addCost offset).Within v := by
  rw [addCost]
  split
  · exact within
  · exact simplify_within v simplified _ ⟨within, ⟨increase, constant, trivial⟩, trivial⟩

theorem AlphaCost.scaled_within (v : Vocabulary R) (pricing : Pricing R) (prices : v.Prices pricing.alpha)
    (e : Effect R) (within : e.Within v) : (e.rewardsToCosts.scaleCosts pricing.alpha).Within v :=
  Effect.scale_costs_within v _ prices _ (Effect.rewards_to_costs_within v prices.increase prices.decrease e within)

theorem AlphaCost.priced_within (v : Vocabulary R) (pricing : Pricing R) (prices : v.Prices pricing.alpha)
    (e : Effect R) (within : e.Within v) : (priced pricing e).Within v :=
  Effect.simplify_within v prices.simplified _ (scaled_within v pricing prices e within)

variable {K : Type} [ExactNumber K]

theorem Vocabulary.numeric_prices (factor : K) : (numericOperands K).certain.Prices factor :=
  ⟨trivial, trivial, trivial, fun _ numeric => ⟨trivial, numeric⟩, Query.numeric_kept⟩

theorem Vocabulary.populated_prices (world : Universe) (factor : K) : (populated K world).certain.Prices factor :=
  ⟨trivial, trivial, trivial, fun _ => id, fun _ => id⟩

theorem Vocabulary.additive_prices (factor : K) : (additive K).certain.Prices factor :=
  ⟨fun _ => .inl rfl, fun _ => .inr rfl, trivial, fun _ => id, fun _ => id⟩

structure Effect.Priceable (world : Universe) (e : Effect K) : Prop where
  formed : e.Within (Vocabulary.numericOperands K).certain
  inhabited : e.Within (Vocabulary.populated K world).certain
  additive : e.Within (Vocabulary.additive K).certain

theorem AlphaCost.priced_gain (pricing : Pricing K) (e : Effect K) (s : State K) (priceable : e.Priceable s.world)
    (σs : List Substitution) (x : K) :
    Changes.settle totalCostAtom.ground x ((priced pricing e).gathered s σs).assignments =
      x + pricing.alpha * (e.gathered s σs).weight Changes.netOf := by
  have numeric := scaled_within _ pricing (Vocabulary.numeric_prices _) e priceable.formed
  have inhabited := scaled_within _ pricing (Vocabulary.populated_prices s.world _) e priceable.inhabited
  have additive := scaled_within _ pricing (Vocabulary.additive_prices _) e priceable.additive
  have formed := Effect.within_of_certain _ _ (Effect.rewards_to_costs_within _ trivial trivial e priceable.formed)
  have agree := Effect.simplify_gathered _ s numeric (Effect.within_of_certain _ _ inhabited) σs
  rw [priced, agree.values _ id]
  refine (Effect.additive_settles _ (Effect.within_of_certain _ _ additive) s σs _ (.inr rfl) x).trans ?_
  exact congrArg (x + ·) ((Effect.scale_costs_gain _ _ formed s σs).trans
    (congrArg _ (Effect.rewards_to_costs_gain e s σs)))

theorem AlphaCost.variant_pays (pricing : Pricing K) (p : K) (e : Effect K) (s : State K)
    (priceable : e.Priceable s.world) (σs : List Substitution) (x : K) :
    Changes.settle totalCostAtom.ground x
        (((priced pricing e).addCost (likelihoodCost pricing p)).gathered s σs).assignments =
      x + (pricing.alpha * (e.gathered s σs).weight Changes.netOf + likelihoodCost pricing p) := by
  have formed := priced_within _ pricing (Vocabulary.numeric_prices _) e priceable.formed
  have inhabited := priced_within _ pricing (Vocabulary.populated_prices s.world _) e priceable.inhabited
  have agree := Effect.add_cost_gathered (likelihoodCost pricing p) _ s formed
    (Effect.within_of_certain _ _ inhabited) σs
  rw [agree.values _ id, Changes.append, Changes.settle_append, priced_gain pricing e s priceable σs x, ← add_assoc,
    Changes.settle, List.foldl_cons, if_pos rfl]
  rfl

theorem Effect.outcome_nets (e : Effect K) (σ : Substitution) (s : State K) (priceable : e.Priceable s.world) :
    ∃ after, (e.bind σ).apply s = .ok after ∧
      (e.gathered s [σ]).weight Changes.netOf = after.totalCost - s.totalCost - (after.reward - s.reward) := by
  have deterministic := Effect.within_deterministic _ id e priceable.formed
  have additive := Effect.within_of_certain _ _ priceable.additive
  have paid (x : K) : Changes.settle totalCostAtom.ground x (e.gathered s [σ]).assignments =
      x + (e.gathered s [σ]).gain totalCostAtom.ground := Effect.additive_settles e additive s [σ] _ (.inr rfl) x
  have earned (x : K) : Changes.settle rewardAtom.ground x (e.gathered s [σ]).assignments =
      x + (e.gathered s [σ]).gain rewardAtom.ground := Effect.additive_settles e additive s [σ] _ (.inl rfl) x
  refine ⟨(e.gathered s [σ]).applyTo s, ?_, ?_⟩
  · rw [Effect.apply_gathered _ (by rw [Effect.has_probabilistic_bind, deterministic]), Effect.gathered_bind]
  · rw [Changes.net_gain, State.total_cost_value, State.total_cost_value, State.reward_value, State.reward_value,
      Changes.apply_to_value, Changes.apply_to_value, paid, earned, add_sub_cancel_left, add_sub_cancel_left]

section Visible

variable (pricing : Pricing K) (e : Effect K) (s : State K)
  (formed : e.Within (Vocabulary.numericOperands K).certain)
  (inhabited : e.Within (Vocabulary.populated K s.world).certain)

include formed inhabited

theorem AlphaCost.priced_gathered (σs : List Substitution) :
    Changes.Agree Effect.isTotal ((priced pricing e).gathered s σs) (e.gathered s σs) := by
  refine Effect.rewritten_gathered Effect.isTotal e _ s σs ?_
    (scaled_within _ pricing (Vocabulary.numeric_prices _) e formed)
    (Effect.within_of_certain _ _ (scaled_within _ pricing (Vocabulary.populated_prices s.world _) e inhabited))
  exact Changes.agree_trans (Effect.scale_costs_gathered _ _ s σs) (Effect.rewards_to_costs_gathered e s σs)

theorem AlphaCost.variant_gathered (p : K) (σs : List Substitution) :
    Changes.Agree Effect.isTotal (((priced pricing e).addCost (likelihoodCost pricing p)).gathered s σs)
      (e.gathered s σs) := by
  have numeric := priced_within _ pricing (Vocabulary.numeric_prices _) e formed
  have populated := priced_within _ pricing (Vocabulary.populated_prices s.world _) e inhabited
  have added := Effect.add_cost_gathered (likelihoodCost pricing p) _ s numeric
    (Effect.within_of_certain _ _ populated) σs
  have price : Changes.Agree Effect.isTotal
      ⟨[], [], [(.increase, totalCostAtom.ground, likelihoodCost pricing p)]⟩ Changes.none :=
    Changes.agree_symm (Changes.agree_idle _ _ _ fun seen => absurd (.inr rfl) seen)
  have without := Changes.agree_append (priced_gathered pricing e s formed inhabited σs) price
  rw [Changes.append_none] at without
  exact Changes.agree_trans (Changes.agree_hiding _ (fun _ => False.elim) added) without

theorem AlphaCost.pure_gathered (pure : isPure (priced pricing e) = true) (σs : List Substitution) :
    Changes.Agree Effect.isTotal Changes.none (e.gathered s σs) := by
  have numeric := priced_within _ pricing (Vocabulary.numeric_prices _) e formed
  have populated := Effect.within_of_certain _ _
    (priced_within _ pricing (Vocabulary.populated_prices s.world _) e inhabited)
  have simplified := Effect.simplify_gathered _ s (Effect.unless_of_within _ totalCostAtom _ numeric)
    (Effect.unless_of_within _ totalCostAtom _ populated) σs
  have nothing : ((priced pricing e).mapAssignments (Effect.unlessOf totalCostAtom)).simplify = .skip :=
    (Effect.is_skip_iff _).mp pure
  rw [nothing] at simplified
  refine Changes.agree_trans (Changes.agree_hiding _ (fun _ => False.elim) simplified) ?_
  refine Changes.agree_trans (Changes.agree_hiding _ (fun f isCost => .inr isCost)
    (Effect.unless_of_gathered "total-cost" _ s σs)) ?_
  exact priced_gathered pricing e s formed inhabited σs

end Visible

end Replan
