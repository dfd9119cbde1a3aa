import Replan.Effect.Costs
import Replan.Proofs.Effect.Gathering
import Replan.Proofs.Effect.Vocabulary

set_option autoImplicit false

namespace Replan

namespace Atom

theorem bind_all_name (σs : List Substitution) (a : Atom) : (a.bindAll σs).name = a.name := by
  induction σs generalizing a with
  | nil => rfl
  | cons σ σs ih => exact ih (a.bind σ)

theorem bind_all_arity (σs : List Substitution) (a : Atom) :
    (a.bindAll σs).args.length = a.args.length := by
  induction σs generalizing a with
  | nil => rfl
  | cons σ σs ih =>
      have rest := ih (a.bind σ)
      rwa [bind, List.length_map] at rest

theorem bind_all_constant_iff (σs : List Substitution) (a : Atom) (name : String) :
    (a.bindAll σs).ground = ⟨name, []⟩ ↔ a.ground = ⟨name, []⟩ := by
  have arity := bind_all_arity σs a
  simp only [ground, Ground.mk.injEq, bind_all_name, ← List.length_eq_zero_iff, List.length_map, arity]

theorem same_iff (a b : Atom) : a.same b = true ↔ a.ground = b.ground := beq_iff_eq

end Atom

namespace Changes

variable {R : Type}

structure Within (v : Vocabulary R) (c : Changes R) : Prop where
  adds : ∀ fact ∈ c.adds, ∃ a σs, v.fact a ∧ (a.bindAll σs).ground = fact
  deletes : ∀ fact ∈ c.deletes, ∃ a σs, v.fact a ∧ (a.bindAll σs).ground = fact
  assignments : ∀ change ∈ c.assignments,
    ∃ a σs, v.assigned change.1 a ∧ (a.bindAll σs).ground = change.2.1

theorem join_within (v : Vocabulary R) (cs : List (Changes R)) (each : ∀ c ∈ cs, c.Within v) :
    (join cs).Within v := by
  refine ⟨?_, ?_, ?_⟩
  · intro fact member
    obtain ⟨c, known, inChanges⟩ := List.mem_flatMap.mp member
    exact (each c known).adds fact inChanges
  · intro fact member
    obtain ⟨c, known, inChanges⟩ := List.mem_flatMap.mp member
    exact (each c known).deletes fact inChanges
  · intro change member
    obtain ⟨c, known, inChanges⟩ := List.mem_flatMap.mp member
    exact (each c known).assignments change inChanges

variable [Number R]

structure Agree (hidden : Ground → Prop) (a b : Changes R) : Prop where
  adds : a.adds = b.adds
  deletes : a.deletes = b.deletes
  values : ∀ f, ¬hidden f → ∀ x, settle f x a.assignments = settle f x b.assignments

variable {hidden : Ground → Prop} {a b c : Changes R}

theorem agree_refl (a : Changes R) : Agree hidden a a := ⟨rfl, rfl, fun _ _ _ => rfl⟩

theorem agree_trans (first : Agree hidden a b) (second : Agree hidden b c) : Agree hidden a c :=
  ⟨first.adds.trans second.adds, first.deletes.trans second.deletes,
    fun f seen x => (first.values f seen x).trans (second.values f seen x)⟩

theorem agree_symm (agree : Agree hidden a b) : Agree hidden b a :=
  ⟨agree.adds.symm, agree.deletes.symm, fun f seen x => (agree.values f seen x).symm⟩

theorem agree_hiding (more : Ground → Prop) (fewer : ∀ f, hidden f → more f) (agree : Agree hidden a b) :
    Agree more a b :=
  ⟨agree.adds, agree.deletes, fun f seen x => agree.values f (fun isHidden => seen (fewer f isHidden)) x⟩

theorem agree_append {a' b' : Changes R} (first : Agree hidden a b) (second : Agree hidden a' b') :
    Agree hidden (a.append a') (b.append b') := by
  refine ⟨?_, ?_, fun f seen x => ?_⟩
  · rw [append, append, first.adds, second.adds]
  · rw [append, append, first.deletes, second.deletes]
  · rw [append, append, settle_append, settle_append, first.values f seen, second.values f seen]

theorem agree_join {α : Type} (xs : List α) (f g : α → Changes R)
    (each : ∀ x ∈ xs, Agree hidden (f x) (g x)) : Agree hidden (join (xs.map f)) (join (xs.map g)) := by
  induction xs with
  | nil => exact agree_refl none
  | cons x xs ih =>
      rw [List.map_cons, List.map_cons, join_cons, join_cons]
      exact agree_append (each x List.mem_cons_self) (ih fun y member => each y (List.mem_cons_of_mem x member))

theorem settle_untouched (f : Ground) (x : R) (assignments : List (AssignOp × Ground × R))
    (untouched : ∀ change ∈ assignments, change.2.1 ≠ f) : settle f x assignments = x := by
  induction assignments with
  | nil => rfl
  | cons change rest ih =>
      rw [settle, List.foldl_cons, if_neg (untouched change List.mem_cons_self)]
      exact ih fun other member => untouched other (List.mem_cons_of_mem change member)

theorem agree_idle (op : AssignOp) (fluent : Ground) (value : R)
    (idle : ¬hidden fluent → ∀ x, op.apply x value = x) :
    Agree hidden none ⟨[], [], [(op, fluent, value)]⟩ := by
  refine ⟨rfl, rfl, fun f seen x => ?_⟩
  by_cases same : fluent = f
  · subst same
    simp [settle, none, idle seen x]
  · simp [settle, none, same]

end Changes

namespace Effect

variable {R : Type} [Number R]

theorem gathered_within (v : Vocabulary R) (e : Effect R) (within : e.Within v) (s : State R)
    (σs : List Substitution) : (e.gathered s σs).Within v := by
  have nothing : (Changes.none : Changes R).Within v := Changes.join_within v [] (by simp)
  induction e generalizing σs with
  | skip => exact nothing
  | add a => exact ⟨by simpa [gathered] using ⟨a, within, σs, rfl⟩, by simp [gathered], by simp [gathered]⟩
  | delete a => exact ⟨by simp [gathered], by simpa [gathered] using ⟨a, within, σs, rfl⟩, by simp [gathered]⟩
  | conj parts ih =>
      rw [gathered, gathered_list]
      refine Changes.join_within v _ fun c member => ?_
      obtain ⟨part, inParts, rfl⟩ := List.mem_map.mp member
      exact ih part inParts ((within_list v parts).mp within part inParts) σs
  | forAll vars body ih =>
      rw [gathered]
      refine Changes.join_within v _ fun c member => ?_
      obtain ⟨β, _, rfl⟩ := List.mem_map.mp member
      exact ih within.2 _
  | when condition body ih =>
      rw [gathered]
      split
      · exact ih within.2 σs
      · exact nothing
  | assign op fluent value =>
      exact ⟨by simp [gathered], by simp [gathered], by simpa [gathered] using ⟨fluent, within.1, σs, rfl⟩⟩
  | probabilistic outcomes _ => exact nothing

theorem map_assignments_gathered (hidden : Ground → Prop) (f : AssignOp → Atom → Query R → Effect R)
    (s : State R)
    (each : ∀ op fluent value σs, Changes.Agree hidden ((f op fluent value).gathered s σs)
      ((assign op fluent value).gathered s σs))
    (e : Effect R) (σs : List Substitution) :
    Changes.Agree hidden ((e.mapAssignments f).gathered s σs) (e.gathered s σs) := by
  induction e generalizing σs with
  | skip | add | delete => exact Changes.agree_refl _
  | conj parts ih =>
      rw [mapAssignments, map_assignments_list, gathered, gathered, gathered_list, gathered_list, List.map_map]
      exact Changes.agree_join parts _ _ fun e member => ih e member σs
  | forAll vars body ih =>
      rw [mapAssignments, gathered, gathered]
      exact Changes.agree_join _ _ _ fun β _ => ih _
  | when condition body ih =>
      rw [mapAssignments, gathered, gathered]
      split
      · exact ih σs
      · exact Changes.agree_refl _
  | assign op fluent value => exact each op fluent value σs
  | probabilistic outcomes _ => exact Changes.agree_refl _

def nothing (_ : Ground) : Prop := False

def isReward (f : Ground) : Prop := f = rewardAtom.ground

def isTotal (f : Ground) : Prop := f = rewardAtom.ground ∨ f = totalCostAtom.ground

theorem is_total_bound (σs : List Substitution) (a : Atom) : isTotal (a.bindAll σs).ground ↔ isTotal a.ground :=
  or_congr (Atom.bind_all_constant_iff σs a _) (Atom.bind_all_constant_iff σs a _)

omit [Number R] in
theorem bound_same_iff (σs : List Substitution) (fluent : Atom) (name : String) :
    (fluent.bindAll σs).ground = ⟨name, []⟩ ↔ fluent.same ⟨name, []⟩ = true := by
  rw [Atom.bind_all_constant_iff, Atom.same_iff]
  rfl

theorem unless_of_gathered (name : String) (e : Effect R) (s : State R) (σs : List Substitution) :
    Changes.Agree (· = ⟨name, []⟩) ((e.mapAssignments (unlessOf ⟨name, []⟩)).gathered s σs) (e.gathered s σs) := by
  refine map_assignments_gathered _ _ s (fun op fluent value σs => ?_) e σs
  by_cases same : fluent.same ⟨name, []⟩ = true
  · rw [unlessOf, if_pos same]
    exact Changes.agree_idle op _ _ fun seen => absurd ((bound_same_iff σs fluent name).mpr same) seen
  · rw [unlessOf, if_neg same]
    exact Changes.agree_refl _

theorem without_rewards_gathered (e : Effect R) (s : State R) (σs : List Substitution) :
    Changes.Agree isReward (e.withoutRewards.gathered s σs) (e.gathered s σs) := unless_of_gathered "reward" e s σs

theorem total_idle (op : AssignOp) (fluent : Atom) (total : isTotal fluent.ground) (value : Query R) (s : State R)
    (σs : List Substitution) : Changes.Agree isTotal Changes.none ((assign op fluent value).gathered s σs) :=
  Changes.agree_idle op _ _ fun seen => absurd ((is_total_bound σs fluent).mpr total) seen

theorem rewards_to_costs_gathered (e : Effect R) (s : State R) (σs : List Substitution) :
    Changes.Agree isTotal (e.rewardsToCosts.gathered s σs) (e.gathered s σs) := by
  refine map_assignments_gathered isTotal _ s (fun op fluent value σs => ?_) e σs
  by_cases same : fluent.same rewardAtom = true
  · have dropped := total_idle op fluent (.inl ((Atom.same_iff fluent rewardAtom).mp same)) value s σs
    have paid (op : AssignOp) := total_idle op totalCostAtom (.inr rfl) value s σs
    simp only [rewardAsCost, if_pos same]
    cases op with
    | increase | decrease => exact Changes.agree_trans (Changes.agree_symm (paid _)) dropped
    | assign | scaleUp | scaleDown => exact dropped
  · simp only [rewardAsCost, if_neg same]
    exact Changes.agree_refl _

theorem scale_costs_gathered (factor : R) (e : Effect R) (s : State R) (σs : List Substitution) :
    Changes.Agree isTotal ((e.scaleCosts factor).gathered s σs) (e.gathered s σs) := by
  refine map_assignments_gathered isTotal _ s (fun op fluent value σs => ?_) e σs
  have scaled (same : fluent.same totalCostAtom = true) (other : Query R) : Changes.Agree isTotal
      ((cost op other).gathered s σs) ((assign op fluent value).gathered s σs) :=
    Changes.agree_trans (Changes.agree_symm (total_idle op totalCostAtom (.inr rfl) other s σs))
      (total_idle op fluent (.inr ((Atom.same_iff fluent totalCostAtom).mp same)) value s σs)
  cases op with
  | increase | decrease =>
      rw [scaledCost]
      split
      · next same => exact scaled same _
      · exact Changes.agree_refl _
  | assign | scaleUp | scaleDown => exact Changes.agree_refl _

def sparing (R : Type) (spared : Atom) : Vocabulary R := { assigned := fun _ a => a.same spared = false }

omit [Number R] in
theorem unless_of_within (v : Vocabulary R) (dropped : Atom) (e : Effect R) (within : e.Within v) :
    (e.mapAssignments (unlessOf dropped)).Within v := by
  refine map_assignments_within v v v.below_self id _ (fun op fluent value within => ?_) e within
  by_cases same : fluent.same dropped = true
  · rw [unlessOf, if_pos same]
    trivial
  · rw [unlessOf, if_neg same]
    exact within

omit [Number R] in
theorem rewards_to_costs_within (v : Vocabulary R) (increase : v.assigned .increase totalCostAtom)
    (decrease : v.assigned .decrease totalCostAtom) (e : Effect R) (within : e.Within v) :
    e.rewardsToCosts.Within v := by
  refine map_assignments_within v v v.below_self id _ (fun op fluent value within => ?_) e within
  by_cases same : fluent.same rewardAtom = true
  · simp only [rewardAsCost, if_pos same]
    cases op with
    | increase => exact ⟨decrease, within.2⟩
    | decrease => exact ⟨increase, within.2⟩
    | assign | scaleUp | scaleDown => trivial
  · simp only [rewardAsCost, if_neg same]
    exact within

omit [Number R] in
theorem unless_of_spares (dropped : Atom) (e : Effect R) :
    (e.mapAssignments (unlessOf dropped)).Within (sparing R dropped) := by
  have below : (Vocabulary.anything R).Below (sparing R dropped) :=
    ⟨fun _ => id, fun _ => id, fun _ => id, fun _ => id, fun _ => id⟩
  refine map_assignments_within _ _ below id _ (fun op fluent value within => ?_) e (within_anything e)
  by_cases same : fluent.same dropped = true
  · rw [unlessOf, if_pos same]
    trivial
  · rw [unlessOf, if_neg same]
    exact ⟨(Bool.not_eq_true _).mp same, trivial, Query.within_below _ _ below value within.2.2⟩

theorem spared_keeps_value (spared : String) (e : Effect R) (within : e.Within (sparing R ⟨spared, []⟩))
    (s : State R) (σs : List Substitution) (x : R) :
    Changes.settle ⟨spared, []⟩ x (e.gathered s σs).assignments = x := by
  refine Changes.settle_untouched _ x _ fun change member reached => ?_
  obtain ⟨a, τs, differs, bound⟩ := (gathered_within _ e within s σs).assignments change member
  rw [reached, Atom.bind_all_constant_iff] at bound
  have same := (Atom.same_iff a ⟨spared, []⟩).mpr bound
  exact Bool.false_ne_true (differs.symm.trans same)

theorem simplify_gathered_by (hidden : Ground → Prop) (s : State R) (e : Effect R) (certain : e.hasProbabilistic = false)
    (conditions : ∀ condition body, when condition body ∈ e.nodes →
      ∀ σs, (condition.simplify.evalUnder s σs).asBool = (condition.evalUnder s σs).asBool)
    (assignments : ∀ op fluent value, assign op fluent value ∈ e.nodes → ∀ σs,
      Changes.Agree hidden ((set op fluent value.simplify).gathered s σs) ((assign op fluent value).gathered s σs))
    (σs : List Substitution) : Changes.Agree hidden (e.simplify.gathered s σs) (e.gathered s σs) := by
  induction e generalizing σs with
  | skip | add | delete => exact Changes.agree_refl _
  | conj parts ih =>
      rw [has_probabilistic_conj, List.any_eq_false] at certain
      rw [simplify, simplify_list, conjoin_gathered, List.map_map, gathered, gathered_list]
      exact Changes.agree_join parts _ _ fun e member => ih e member (by simpa using certain e member)
        (fun q body found => conditions q body ((mem_nodes_conj _ parts).mpr (.inr ⟨e, member, found⟩)))
        (fun op f q found => assignments op f q ((mem_nodes_conj _ parts).mpr (.inr ⟨e, member, found⟩))) σs
  | forAll vars body ih =>
      rw [has_probabilistic_for_all] at certain
      rw [simplify, quantify_gathered, gathered, gathered]
      exact Changes.agree_join _ _ _ fun β _ => ih certain
        (fun q inner found => conditions q inner ((mem_nodes_for_all _ vars body).mpr (.inr found)))
        (fun op f q found => assignments op f q ((mem_nodes_for_all _ vars body).mpr (.inr found))) _
  | when condition body ih =>
      rw [has_probabilistic_when] at certain
      have here : (when condition body) ∈ (when condition body).nodes := (mem_nodes_when _ condition body).mpr (.inl rfl)
      rw [simplify, guard_gathered, gathered, gathered, conditions condition body here]
      split
      · exact ih certain (fun q inner found => conditions q inner ((mem_nodes_when _ condition body).mpr (.inr found)))
          (fun op f q found => assignments op f q ((mem_nodes_when _ condition body).mpr (.inr found))) σs
      · exact Changes.agree_refl _
  | assign op fluent value => exact assignments op fluent value List.mem_cons_self σs
  | probabilistic outcomes _ => simp [has_probabilistic_choice] at certain

section Exact

variable {K : Type} [ExactNumber K]

theorem set_gathered (op : AssignOp) (fluent : Atom) (value : Query K) (s : State K)
    (σs : List Substitution) :
    Changes.Agree nothing ((set op fluent value).gathered s σs) ((assign op fluent value).gathered s σs) := by
  have dropped (isConstant : K) (found : value.isConstant isConstant = true)
      (idle : ∀ x, op.apply x isConstant = x) :
      Changes.Agree nothing Changes.none ((assign op fluent value).gathered s σs) := by
    rw [Query.is_constant_exact] at found
    subst found
    exact Changes.agree_idle op _ _ fun _ => idle
  cases op with
  | assign => exact Changes.agree_refl _
  | increase =>
      rw [set]
      split
      · next isZero => exact dropped _ isZero fun x => by simp [AssignOp.apply, Number.zero_exact]
      · exact Changes.agree_refl _
  | decrease =>
      rw [set]
      split
      · next isZero => exact dropped _ isZero fun x => by simp [AssignOp.apply, Number.zero_exact]
      · exact Changes.agree_refl _
  | scaleUp =>
      rw [set]
      split
      · next isOne => exact dropped _ isOne fun x => by simp [AssignOp.apply, Number.one_exact]
      · exact Changes.agree_refl _
  | scaleDown =>
      rw [set]
      split
      · next isOne => exact dropped _ isOne fun x => by simp [AssignOp.apply, Number.one_exact]
      · exact Changes.agree_refl _

theorem simplify_gathered (e : Effect K) (s : State K) (formed : e.Within (Vocabulary.numericOperands K).certain)
    (inhabited : e.Within (Vocabulary.populated K s.world)) (σs : List Substitution) :
    Changes.Agree nothing (e.simplify.gathered s σs) (e.gathered s σs) := by
  refine simplify_gathered_by nothing s e (within_deterministic _ id e formed) (fun condition body found σs => ?_)
    (fun op fluent value found σs => ?_) σs
  · have numeric := Query.within_below _ _ (Vocabulary.certain_below _) condition (node_within _ e formed _ found).1
    exact Query.simplify_truth condition s σs numeric (node_within _ e inhabited _ found).1
  · have kept := set_gathered op fluent value.simplify s σs
    rw [gathered, (Query.simplify_numeric value (node_within _ e formed _ found).2.1).2] at kept
    exact kept

theorem rewritten_gathered (hidden : Ground → Prop) (e f : Effect K) (s : State K) (σs : List Substitution)
    (rewritten : Changes.Agree hidden (f.gathered s σs) (e.gathered s σs))
    (formed : f.Within (Vocabulary.numericOperands K).certain)
    (inhabited : f.Within (Vocabulary.populated K s.world)) :
    Changes.Agree hidden (f.simplify.gathered s σs) (e.gathered s σs) :=
  Changes.agree_trans
    (Changes.agree_hiding hidden (fun _ => False.elim) (simplify_gathered f s formed inhabited σs)) rewritten

end Exact

end Effect

end Replan
