import Mathlib.Algebra.BigOperators.Group.List.Basic
import Mathlib.Algebra.BigOperators.Ring.List
import Replan.Proofs.Effect.Meaning

set_option autoImplicit false

namespace Replan

namespace Changes

variable {K : Type} [ExactNumber K]

def gainOf (f : Ground) (change : AssignOp × Ground × K) : K :=
  if change.2.1 = f then
    match change.1 with
    | .increase => change.2.2
    | .decrease => -change.2.2
    | _ => 0
  else 0

def weight (weigh : AssignOp × Ground × K → K) (c : Changes K) : K := (c.assignments.map weigh).sum

def gain (f : Ground) (c : Changes K) : K := c.weight (gainOf f)

def netOf (change : AssignOp × Ground × K) : K :=
  gainOf totalCostAtom.ground change - gainOf rewardAtom.ground change

theorem weight_append (weigh : AssignOp × Ground × K → K) (a b : Changes K) :
    (a.append b).weight weigh = a.weight weigh + b.weight weigh := by
  rw [weight, append, List.map_append, List.sum_append]
  rfl

theorem weight_single (weigh : AssignOp × Ground × K → K) (adds deletes : List Ground)
    (change : AssignOp × Ground × K) : weight weigh ⟨adds, deletes, [change]⟩ = weigh change :=
  List.sum_singleton

theorem weight_join {α : Type} (xs : List α) (v w : AssignOp × Ground × K → K) (f g : α → Changes K)
    (each : ∀ x ∈ xs, (f x).weight v = (g x).weight w) : (join (xs.map f)).weight v = (join (xs.map g)).weight w := by
  induction xs with
  | nil => rfl
  | cons x xs ih =>
      rw [List.map_cons, List.map_cons, join_cons, join_cons, weight_append, weight_append,
        each x List.mem_cons_self, ih fun y member => each y (List.mem_cons_of_mem x member)]

theorem weight_scaled (factor : K) (weigh : AssignOp × Ground × K → K) (c : Changes K) :
    c.weight (fun change => factor * weigh change) = factor * c.weight weigh :=
  List.sum_map_mul_left _ _ _

theorem net_gain (c : Changes K) : c.weight netOf = c.gain totalCostAtom.ground - c.gain rewardAtom.ground := by
  rw [gain, gain, weight, weight, weight]
  induction c.assignments with
  | nil => exact (sub_zero 0).symm
  | cons change rest ih =>
      rw [List.map_cons, List.sum_cons, ih, List.map_cons, List.sum_cons, List.map_cons, List.sum_cons, netOf]
      exact sub_add_sub_comm _ _ _ _

theorem settle_gain (f : Ground) (x : K) (assignments : List (AssignOp × Ground × K))
    (additive : ∀ change ∈ assignments, change.2.1 = f → change.1 = .increase ∨ change.1 = .decrease) :
    settle f x assignments = x + (assignments.map (gainOf f)).sum := by
  induction assignments generalizing x with
  | nil => exact (add_zero x).symm
  | cons change rest ih =>
      obtain ⟨first, others⟩ := List.forall_mem_cons.mp additive
      rw [settle, List.foldl_cons]
      have step : (if change.2.1 = f then change.1.apply x change.2.2 else x) = x + gainOf f change := by
        by_cases reached : change.2.1 = f
        · rw [if_pos reached, gainOf, if_pos reached]
          rcases first reached with op | op
          · rw [op]
            rfl
          · rw [op]
            exact sub_eq_add_neg x change.2.2
        · rw [if_neg reached, gainOf, if_neg reached, add_zero]
      rw [step, List.map_cons, List.sum_cons, ← add_assoc]
      exact ih _ others

end Changes

def Vocabulary.additive (R : Type) : Vocabulary R :=
  { assigned := fun op a => Effect.isTotal a.ground → op = .increase ∨ op = .decrease }

structure Vocabulary.Prices {R : Type} [Number R] (v : Vocabulary R) (factor : R) : Prop where
  increase : v.assigned .increase totalCostAtom
  decrease : v.assigned .decrease totalCostAtom
  constant : v.operand (.constant factor)
  product : ∀ q, v.operand q → v.operand (.arithmetic .mul (.constant factor) q)
  simplified : ∀ q, v.operand q → v.operand q.simplify

namespace Effect

section Within

variable {R : Type} [Number R]

theorem scale_costs_within (v : Vocabulary R) (factor : R) (prices : v.Prices factor) (e : Effect R)
    (within : e.Within v) : (e.scaleCosts factor).Within v := by
  refine map_assignments_within v v v.below_self id _ (fun op fluent value within => ?_) e within
  have scaled (paid : v.assigned op totalCostAtom) :
      (cost op (Query.arithmetic .mul (.constant factor) value).simplify).Within v := by
    obtain ⟨-, operand, reads⟩ := within
    exact ⟨paid, prices.simplified _ (prices.product value operand),
      Query.simplify_within v prices.simplified _ ⟨⟨prices.constant, trivial⟩, operand, reads⟩⟩
  cases op with
  | increase =>
      rw [scaledCost]
      split
      · exact scaled prices.increase
      · exact within
  | decrease =>
      rw [scaledCost]
      split
      · exact scaled prices.decrease
      · exact within
  | assign | scaleUp | scaleDown => exact within

theorem additive_assignments (e : Effect R) (additive : e.Within (Vocabulary.additive R)) (s : State R)
    (σs : List Substitution) (name : String) (total : isTotal ⟨name, []⟩) :
    ∀ change ∈ (e.gathered s σs).assignments, change.2.1 = ⟨name, []⟩ →
      change.1 = .increase ∨ change.1 = .decrease := by
  intro change member reached
  obtain ⟨a, τs, allowed, bound⟩ := (gathered_within _ e additive s σs).assignments change member
  rw [reached, Atom.bind_all_constant_iff] at bound
  exact allowed (bound ▸ total)

end Within

variable {K : Type} [ExactNumber K]

theorem additive_settles (e : Effect K) (additive : e.Within (Vocabulary.additive K)) (s : State K)
    (σs : List Substitution) (name : String) (total : isTotal ⟨name, []⟩) (x : K) :
    Changes.settle ⟨name, []⟩ x (e.gathered s σs).assignments = x + (e.gathered s σs).gain ⟨name, []⟩ :=
  Changes.settle_gain _ x _ (additive_assignments e additive s σs name total)

theorem map_assignments_weight (v : Vocabulary K) (weigh weigh' : AssignOp × Ground × K → K)
    (f : AssignOp → Atom → Query K → Effect K) (s : State K)
    (each : ∀ op fluent value σs, (assign op fluent value).Within v →
      ((f op fluent value).gathered s σs).weight weigh =
        weigh' (op, (fluent.bindAll σs).ground, (value.evalUnder s σs).asNumber))
    (e : Effect K) (within : e.Within v) (σs : List Substitution) :
    ((e.mapAssignments f).gathered s σs).weight weigh = (e.gathered s σs).weight weigh' := by
  induction e generalizing σs with
  | skip | add | delete | probabilistic => rfl
  | conj parts ih =>
      rw [mapAssignments, map_assignments_list, gathered, gathered, gathered_list, gathered_list, List.map_map]
      exact Changes.weight_join parts _ _ _ _ fun e member =>
        ih e member ((within_list v parts).mp within e member) σs
  | forAll vars body ih =>
      rw [mapAssignments, gathered, gathered]
      exact Changes.weight_join _ _ _ _ _ fun β _ => ih within.2 _
  | when condition body ih =>
      rw [mapAssignments, gathered, gathered]
      split
      · exact ih within.2 σs
      · rfl
  | assign op fluent value =>
      rw [mapAssignments, each op fluent value σs within, gathered, Changes.weight_single]

theorem bound_total_cost (σs : List Substitution) : (totalCostAtom.bindAll σs).ground = totalCostAtom.ground :=
  (Atom.bind_all_constant_iff σs totalCostAtom _).mpr rfl

theorem cost_gathered (op : AssignOp) (value : Query K) (s : State K) (σs : List Substitution) :
    (cost op value).gathered s σs =
      ⟨[], [], [(op, totalCostAtom.ground, (value.evalUnder s σs).asNumber)]⟩ := by
  rw [cost, gathered, bound_total_cost]

theorem rewards_to_costs_gain (e : Effect K) (s : State K) (σs : List Substitution) :
    (e.rewardsToCosts.gathered s σs).gain totalCostAtom.ground = (e.gathered s σs).weight Changes.netOf := by
  refine map_assignments_weight (Vocabulary.anything K) _ _ _ s (fun op fluent value σs _ => ?_) e
    (within_anything e) σs
  by_cases same : fluent.same rewardAtom = true
  · have reward : (fluent.bindAll σs).ground = rewardAtom.ground := (bound_same_iff σs fluent _).mpr same
    simp only [rewardAsCost, if_pos same, Changes.netOf, Changes.gainOf, reward, State.reward_is_not_cost, if_false,
      if_true, zero_sub]
    cases op with
    | increase | decrease =>
        simp only [cost_gathered, Changes.weight_single, Changes.gainOf, if_true, neg_neg]
    | assign | scaleUp | scaleDown => exact neg_zero.symm
  · have other : (fluent.bindAll σs).ground ≠ rewardAtom.ground := fun reward =>
      same ((bound_same_iff σs fluent _).mp reward)
    simp only [rewardAsCost, if_neg same, gathered, Changes.weight_single, Changes.netOf]
    rw [Changes.gainOf.eq_def rewardAtom.ground, if_neg other, sub_zero]

theorem scale_costs_gain (factor : K) (e : Effect K) (formed : e.Within (Vocabulary.numericOperands K)) (s : State K)
    (σs : List Substitution) :
    ((e.scaleCosts factor).gathered s σs).gain totalCostAtom.ground =
      factor * (e.gathered s σs).gain totalCostAtom.ground := by
  rw [Changes.gain, Changes.gain, ← Changes.weight_scaled]
  refine map_assignments_weight (Vocabulary.numericOperands K) _ _ _ s (fun op fluent value σs within => ?_) e formed σs
  have product : ((Query.arithmetic .mul (.constant factor) value).simplify.evalUnder s σs).asNumber =
      factor * (value.evalUnder s σs).asNumber := by
    rw [(Query.simplify_numeric (.arithmetic .mul (.constant factor) value) ⟨trivial, within.2.1⟩).2]
    rfl
  by_cases same : fluent.same totalCostAtom = true
  · have paid : (fluent.bindAll σs).ground = totalCostAtom.ground := (bound_same_iff σs fluent _).mpr same
    cases op with
    | increase | decrease =>
        simp only [scaledCost, if_pos same, cost_gathered, Changes.weight_single, Changes.gainOf, if_true, product, paid,
          mul_neg]
    | assign | scaleUp | scaleDown =>
        simp only [scaledCost, gathered, Changes.weight_single, Changes.gainOf, if_pos paid, mul_zero]
  · have other : (fluent.bindAll σs).ground ≠ totalCostAtom.ground := fun paid =>
      same ((bound_same_iff σs fluent _).mp paid)
    have untouched : scaledCost factor op fluent value = assign op fluent value := by
      cases op <;> simp only [scaledCost, if_neg same]
    rw [untouched, gathered, Changes.weight_single, Changes.gainOf, if_neg other, mul_zero]

theorem add_cost_gathered (offset : K) (e : Effect K) (s : State K)
    (formed : e.Within (Vocabulary.numericOperands K).certain)
    (inhabited : e.Within (Vocabulary.populated K s.world)) (σs : List Substitution) :
    Changes.Agree nothing ((e.addCost offset).gathered s σs)
      ((e.gathered s σs).append ⟨[], [], [(.increase, totalCostAtom.ground, offset)]⟩) := by
  by_cases isZero : Number.isZero offset = true
  · rw [addCost, if_pos isZero, (Number.eq_exact _ _).mp isZero, Number.zero_exact]
    have same : Changes.Agree nothing (e.gathered s σs) (e.gathered s σs) := Changes.agree_refl _
    have idle := Changes.agree_append same
      (Changes.agree_idle .increase totalCostAtom.ground (0 : K) fun _ x => add_zero x)
    rwa [Changes.append_none] at idle
  · rw [addCost, if_neg isZero]
    have simplified := simplify_gathered (conj [e, cost .increase (.constant offset)]) s
      ⟨formed, ⟨trivial, trivial, trivial⟩, trivial⟩ ⟨inhabited, ⟨trivial, trivial, trivial⟩, trivial⟩ σs
    rwa [gathered, gathered_list, List.map_cons, List.map_singleton, cost_gathered, Changes.join_cons,
      Changes.join_single] at simplified

end Effect

end Replan
