import Replan.Proofs.Determinize.BaseActions
import Replan.Proofs.Determinize.Priced
import Replan.Proofs.Requirement

set_option autoImplicit false

namespace Replan

open Results

variable {R : Type}

def Vocabulary.classical (R : Type) : Vocabulary R :=
  { assigned := fun _ a => a.same rewardAtom = false, chance := False }

theorem cost_is_not_reward : totalCostAtom.same rewardAtom = false := by decide

section Rewriting

theorem Vocabulary.anything_below_classical : (anything R).certain.Below (classical R) :=
  ⟨fun _ => id, fun _ => id, fun _ => id, fun _ => id, fun _ => id⟩

theorem Effect.without_rewards_classical (e : Effect R) (certain : e.Within (Vocabulary.anything R).certain) :
    e.withoutRewards.Within (Vocabulary.classical R) := by
  refine map_assignments_within _ _ Vocabulary.anything_below_classical id _
    (fun op fluent value within => ?_) e certain
  by_cases same : fluent.same rewardAtom = true
  · rw [unlessOf, if_pos same]
    trivial
  · rw [unlessOf, if_neg same]
    exact ⟨(Bool.not_eq_true _).mp same, trivial,
      Query.within_below _ _ Vocabulary.anything_below_classical value within.2.2⟩

theorem Effect.rewards_to_costs_classical (e : Effect R) (certain : e.Within (Vocabulary.anything R).certain) :
    e.rewardsToCosts.Within (Vocabulary.classical R) := by
  refine map_assignments_within _ _ Vocabulary.anything_below_classical id _
    (fun op fluent value within => ?_) e certain
  have reads := Query.within_below _ _ Vocabulary.anything_below_classical value within.2.2
  by_cases same : fluent.same rewardAtom = true
  · simp only [rewardAsCost, if_pos same]
    cases op with
    | increase | decrease => exact ⟨cost_is_not_reward, trivial, reads⟩
    | assign | scaleUp | scaleDown => trivial
  · simp only [rewardAsCost, if_neg same]
    exact ⟨(Bool.not_eq_true _).mp same, trivial, reads⟩

variable [Number R]

theorem Vocabulary.classical_prices (factor : R) : (classical R).Prices factor :=
  ⟨cost_is_not_reward, cost_is_not_reward, trivial, fun _ => id, fun _ => id⟩

theorem Hindsight.settle_rewards_classical (transformRewards : Bool) (e : Effect R)
    (certain : e.Within (Vocabulary.anything R).certain) :
    (settleRewards transformRewards e).Within (Vocabulary.classical R) := by
  unfold settleRewards
  split
  · exact Effect.simplify_within _ (fun _ => id) _ (Effect.rewards_to_costs_classical e certain)
  · exact Effect.simplify_within _ (fun _ => id) _ (Effect.without_rewards_classical e certain)

theorem Strategy.commit_classical (strategy : Strategy R) (b : Action R) (i : Nat) (outcome : R × Effect R)
    (deterministic : outcome.2.hasProbabilistic = false) :
    (strategy.commit b i outcome).effect.Within (Vocabulary.classical R) := by
  have certain := Effect.certain_within _ _ (Effect.within_anything outcome.2) deterministic
  have rewardless := Effect.simplify_within (Vocabulary.classical R) (fun _ => id) _
    (Effect.without_rewards_classical outcome.2 certain)
  cases strategy with
  | allOutcome | singleOutcome => exact rewardless
  | alphaCost pricing =>
      have scaled := Effect.scale_costs_within _ pricing.alpha (Vocabulary.classical_prices _) _
        (Effect.rewards_to_costs_classical outcome.2 certain)
      have priced := Effect.simplify_within (Vocabulary.classical R) (fun _ => id) _ scaled
      exact Effect.add_cost_within _ _ cost_is_not_reward trivial (fun _ => id) _ priced
  | hindsight method size transformRewards =>
      have plain := Hindsight.settle_rewards_classical transformRewards outcome.2 certain
      simp only [commit, Hindsight.variantAt]
      split
      · exact Effect.simplify_within _ (fun _ => id) _ ⟨plain, trivial, trivial, trivial⟩
      · exact plain

theorem Strategy.commit_deterministic (strategy : Strategy R) (b : Action R) (i : Nat) (outcome : R × Effect R)
    (deterministic : outcome.2.hasProbabilistic = false) :
    (strategy.commit b i outcome).effect.hasProbabilistic = false :=
  Effect.within_deterministic _ id _ (strategy.commit_classical b i outcome deterministic)

end Rewriting

section Declaring

theorem Effect.mem_modified_functions (e : Effect R) (name : String) : name ∈ e.modifiedFunctions ↔
    ∃ op fluent value, assign op fluent value ∈ e.nodes ∧ fluent.name = name := by
  rw [modifiedFunctions, Sorted.mem_of_list, List.mem_filterMap]
  constructor
  · rintro ⟨node, inside, named⟩
    cases node with
    | assign op fluent value => exact ⟨op, fluent, value, inside, Option.some.inj named⟩
    | skip | add | delete | conj | forAll | when | probabilistic => cases named
  · rintro ⟨op, fluent, value, inside, rfl⟩
    exact ⟨_, inside, rfl⟩

theorem Domain.uses_costs_iff (d : Domain R) :
    d.usesCosts = true ↔ ∃ f ∈ d.functions, f.name = totalCostAtom.name := by
  simp [usesCosts, declaresFunction, totalCostAtom, rewardAtom]

theorem Domain.classical_costed (d : Domain R) (actions : List (Action R)) : ∃ costed : Domain R,
    costed.requirements = RequirementSet.diff d.requirements Requirement.mdpFeatures ∧
      (∀ f ∈ costed.functions, f = totalCostAtom ∨ f ∈ d.functions ∧ f.name ≠ rewardAtom.name) ∧
      (paysCost actions = true → costed.usesCosts = true) ∧
      d.classical actions =
        if costed.usesCosts then
          { costed with requirements := RequirementSet.union costed.requirements [.actionCosts] }
        else costed := by
  let plain : Domain R :=
    { d with
      actions
      requirements := RequirementSet.diff d.requirements Requirement.mdpFeatures
      functions := d.functions.filter fun f => f.name != rewardAtom.name }
  have kept : ∀ f ∈ plain.functions, f = totalCostAtom ∨ f ∈ d.functions ∧ f.name ≠ rewardAtom.name := by
    intro f member
    exact Or.inr (by simpa [plain] using member)
  by_cases added : (paysCost actions && !plain.usesCosts) = true
  · refine ⟨{ plain with functions := plain.functions ++ [totalCostAtom] }, rfl, ?_, fun _ => ?_, ?_⟩
    · intro f member
      rcases List.mem_append.mp member with known | new
      · exact kept f known
      · exact Or.inl (List.mem_singleton.mp new)
    · exact (uses_costs_iff _).mpr ⟨totalCostAtom, by simp, rfl⟩
    · simp only [classical, plain] at added ⊢
      rw [if_pos added]
  · refine ⟨plain, rfl, kept, fun pays => by simpa [pays] using added, ?_⟩
    simp only [classical, plain] at added ⊢
    rw [if_neg added]

theorem Domain.classical_functions (d : Domain R) (actions : List (Action R)) :
    (∀ f ∈ (d.classical actions).functions, f = totalCostAtom ∨ f ∈ d.functions ∧ f.name ≠ rewardAtom.name) ∧
      (paysCost actions = true → (d.classical actions).usesCosts = true) := by
  obtain ⟨costed, -, declared, paid, made⟩ := d.classical_costed actions
  have same : (d.classical actions).functions = costed.functions := by
    rw [made]
    split <;> rfl
  rw [uses_costs_iff, same, ← uses_costs_iff]
  exact ⟨declared, paid⟩

theorem Domain.classical_requirements (d : Domain R) (actions : List (Action R)) :
    (∀ r ∈ (d.classical actions).requirements,
        r ∈ d.requirements ∧ r ∉ Requirement.mdpFeatures ∨ r = .actionCosts) ∧
      ((d.classical actions).usesCosts = true → .actionCosts ∈ (d.classical actions).requirements) := by
  obtain ⟨costed, required, -, -, made⟩ := d.classical_costed actions
  by_cases uses : costed.usesCosts = true
  · rw [made, if_pos uses]
    refine ⟨fun r member => ?_, fun _ => by simp [RequirementSet.mem_union]⟩
    simpa [RequirementSet.mem_union, RequirementSet.mem_diff, required] using member
  · rw [made, if_neg uses]
    refine ⟨fun r member => Or.inl ?_, fun again => absurd again uses⟩
    simpa [RequirementSet.mem_diff, required] using member

theorem Hindsight.declare_wheel_keeps (method : WheelMethod) (auxiliary : List Atom) (d : Domain R) :
    (declareWheel method auxiliary d).functions = d.functions ∧
      ∀ r, r ∈ (declareWheel method auxiliary d).requirements ↔
        r ∈ d.requirements ∨ r = .typing ∧ auxiliary.isEmpty = false := by
  unfold declareWheel
  split
  · next empty => simp [empty]
  · next wheel => simp [RequirementSet.mem_union, wheel]

variable [Number R]

theorem Strategy.apply_classical (strategy : Strategy R) (d : Domain R) :
    let classical := d.classical (d.actions.flatMap strategy.variants)
    (strategy.apply d).functions = classical.functions ∧
      (∀ r ∈ (strategy.apply d).requirements, r ∈ classical.requirements ∨ r = .typing) ∧
      ∀ r ∈ classical.requirements, r ∈ (strategy.apply d).requirements := by
  cases strategy with
  | allOutcome | singleOutcome | alphaCost => exact ⟨rfl, fun _ => Or.inl, fun _ => id⟩
  | hindsight method size transformRewards =>
      obtain ⟨functions, requirements⟩ := Hindsight.declare_wheel_keeps method
        (d.actions.flatMap (Hindsight.auxiliaryOf method))
        (d.classical (d.actions.flatMap (Hindsight.variants method transformRewards)))
      refine ⟨functions, fun r member => ?_, fun r member => (requirements r).mpr (Or.inl member)⟩
      exact ((requirements r).mp member).imp_right And.left

theorem Strategy.apply_declares (strategy : Strategy R) (d : Domain R) :
    (∀ f ∈ (strategy.apply d).functions, f = totalCostAtom ∨ f ∈ d.functions ∧ f.name ≠ rewardAtom.name) ∧
      (∀ r ∈ (strategy.apply d).requirements, r ∉ Requirement.mdpFeatures) ∧
      (Domain.paysCost (strategy.apply d).actions = true →
        (strategy.apply d).usesCosts = true ∧ .actionCosts ∈ (strategy.apply d).requirements) := by
  obtain ⟨functions, known, kept⟩ := strategy.apply_classical d
  obtain ⟨declared, paid⟩ := d.classical_functions (d.actions.flatMap strategy.variants)
  obtain ⟨required, costly⟩ := d.classical_requirements (d.actions.flatMap strategy.variants)
  rw [Domain.uses_costs_iff, functions, strategy.apply_actions, ← Domain.uses_costs_iff]
  refine ⟨declared, fun r member => ?_, fun pays => ⟨paid pays, kept _ (costly (paid pays))⟩⟩
  rcases known r member with before | rfl
  · rcases required r before with ⟨-, classical⟩ | rfl
    · exact classical
    · decide
  · decide

end Declaring

section Problems

variable [Number R]

theorem Strategy.complete_values (strategy : Strategy R) (d : Domain R) (p : Problem R) (dice : Dice R) :
    (strategy.complete d p dice).1.init.values = p.init.values ∧ (strategy.complete d p dice).1.goal = p.goal := by
  cases strategy with
  | hindsight method size _ =>
      obtain ⟨goal, values, -⟩ := Hindsight.draw_wheel_keeps method size d p dice
      exact ⟨values, goal⟩
  | allOutcome | singleOutcome | alphaCost => exact ⟨rfl, rfl⟩

theorem Determinizer.classical_cost (d : Domain R) (uses : d.usesCosts = true) (values : List (Ground × R)) :
    Sorted.get? totalCostAtom.ground (classicalValues d values) =
      some ((Sorted.get? totalCostAtom.ground values).getD Number.zero) := by
  have kept := Sorted.get_drop rewardAtom.ground totalCostAtom.ground State.reward_is_not_cost values
  simp only [classicalValues, uses, Bool.true_and, kept]
  cases found : Sorted.get? totalCostAtom.ground values with
  | none => simp [Sorted.get_put]
  | some cost => simp [kept, found]

end Problems

structure Domain.IsClassical [Number R] (d : Domain R) : Prop where
  certain : ∀ a ∈ d.actions, ∀ outcomes, Effect.probabilistic outcomes ∉ a.effect.nodes
  rewardless : ∀ a ∈ d.actions, ∀ op fluent value, Effect.assign op fluent value ∈ a.effect.nodes →
    fluent.same rewardAtom = false
  executable : ∀ a ∈ d.actions, ∀ σ s, ∃ s', (a.bind σ).effect.apply s = .ok s'
  requirements : .probabilisticEffects ∉ d.requirements ∧ .rewards ∉ d.requirements
  functions : ∀ f ∈ d.functions, f.name ≠ rewardAtom.name
  costs : ∀ a ∈ d.actions, ∀ op fluent value, Effect.assign op fluent value ∈ a.effect.nodes →
    fluent.name = totalCostAtom.name →
    (∃ f ∈ d.functions, f.name = totalCostAtom.name) ∧ .actionCosts ∈ d.requirements

variable [Number R]

theorem Strategy.forall_applied (strategy : Strategy R) (d d' : Domain R) (preprocessed : d.preprocess = .ok d')
    (P : Action R → Prop)
    (each : ∀ a ∈ d.actions, ∀ b ∈ d'.actions, a.preprocess = .ok b → ∀ i outcome, outcome ∈ b.outcomes →
      P (strategy.commit b i outcome)) : ∀ v ∈ (strategy.apply d').actions, P v := by
  intro v listed
  rw [strategy.apply_actions] at listed
  obtain ⟨b, known, variant⟩ := List.mem_flatMap.mp listed
  obtain ⟨i, outcome, found, rfl⟩ := strategy.mem_variants b v variant
  obtain ⟨a, given, became⟩ := forall_two_right _ _ _ (Domain.preprocess_actions d d' preprocessed).1 b known
  exact each a given b known became i outcome (List.mem_of_getElem? found)

theorem Strategy.applied_within (strategy : Strategy R) (d d' : Domain R) (preprocessed : d.preprocess = .ok d') :
    ∀ a ∈ (strategy.apply d').actions, a.effect.Within (Vocabulary.classical R) := by
  refine strategy.forall_applied d d' preprocessed _ fun a _ b _ became i outcome inOutcomes => ?_
  exact strategy.commit_classical b i outcome (Action.preprocess_deterministic a b became outcome inOutcomes)

theorem Strategy.applied_classical (strategy : Strategy R) (d d' : Domain R) (preprocessed : d.preprocess = .ok d') :
    (strategy.apply d').IsClassical := by
  obtain ⟨functions, requirements, costs⟩ := strategy.apply_declares d'
  have within := strategy.applied_within d d' preprocessed
  constructor
  · intro a member outcomes inside
    exact (Effect.node_within _ a.effect (within a member) _ inside).1
  · intro a member op fluent value inside
    exact (Effect.node_within _ a.effect (within a member) _ inside).1
  · intro a member σ s
    have deterministic := Effect.within_deterministic _ id a.effect (within a member)
    exact ⟨_, Effect.apply_gathered _ ((Effect.has_probabilistic_bind a.effect σ).trans deterministic) s⟩
  · exact ⟨fun member => requirements _ member (by decide), fun member => requirements _ member (by decide)⟩
  · intro f member
    rcases functions f member with rfl | ⟨-, named⟩
    · decide
    · exact named
  · intro a member op fluent value inside isCost
    have pays := (a.effect.mem_modified_functions _).mpr ⟨op, fluent, value, inside, isCost⟩
    have paying : Domain.paysCost (strategy.apply d').actions = true :=
      List.any_eq_true.mpr ⟨a, member, List.contains_iff_mem.mpr pays⟩
    exact ⟨(Domain.uses_costs_iff _).mp (costs paying).1, (costs paying).2⟩

/-- Determinized domains are classical: nothing is left to chance or rewarded, and total costs are declared, required
and minimized where they are changed. -/
theorem determinized_domains_are_classical (t t' : Determinizer R) (d : Domain R) (domainSet : t.setDomain d = .ok t') :
    ∃ versions, t'.versions = .ok versions ∧ versions.given = d ∧ versions.determinized.IsClassical ∧
      (∀ f ∈ versions.determinized.functions, f = totalCostAtom ∨ f ∈ d.functions) ∧
      ∀ a ∈ versions.determinized.actions, ∀ op fluent value, Effect.assign op fluent value ∈ a.effect.nodes →
        fluent.name = totalCostAtom.name → ∀ p, ∃ q t'', t'.determinize p = .ok (q, t'') ∧ q.domain = versions.determinized ∧
          Sorted.get? totalCostAtom.ground q.init.values =
            some ((Sorted.get? totalCostAtom.ground p.init.values).getD Number.zero) ∧
          q.goal.metric = some Metric.minimizeCost := by
  obtain ⟨d', preprocessed, rfl⟩ := (set_domain_ok_iff t t' d).mp domainSet
  have classical := t.strategy.applied_classical d d' preprocessed
  refine ⟨⟨d, d', t.strategy.apply d'⟩, rfl, rfl, classical, ?_, ?_⟩
  · have same : d'.functions = d.functions := by rw [(Domain.preprocess_actions d d' preprocessed).2]
    intro f member
    rcases (t.strategy.apply_declares d').1 f member with isCost | ⟨known, -⟩
    · exact Or.inl isCost
    · exact Or.inr (same ▸ known)
  · intro a member op fluent value inside isCost p
    have uses := (Domain.uses_costs_iff _).mpr (classical.costs a member op fluent value inside isCost).1
    let plain := Determinizer.classicalProblem (t.strategy.apply d') p
    obtain ⟨values, goal⟩ := t.strategy.complete_values d' plain t.dice
    refine ⟨(t.strategy.complete d' plain t.dice).1, _, rfl, t.strategy.complete_domain d' plain t.dice, ?_, ?_⟩
    · rw [values]
      exact Determinizer.classical_cost _ uses p.init.values
    · rw [goal]
      exact if_pos uses

theorem determinized_domains_are_classical_toss :
    ∃ t' versions q t'',
      (Determinizer.ofDice (.hindsight .shared 2 true) (Dice.always (1 / 3))).setDomain coins = .ok t' ∧
      t'.versions = .ok versions ∧ versions.determinized.IsClassical ∧
      versions.determinized.functions = [⟨"tosses", []⟩, totalCostAtom] ∧
      versions.determinized.requirements = [.typing, .numericFluents, .actionCosts] ∧
      t'.determinize twoCoins = .ok (q, t'') ∧ Sorted.get? totalCostAtom.ground q.init.values = some 0 ∧
      q.goal.metric = some Metric.minimizeCost := by
  have run : (do
      let t' ← (Determinizer.ofDice (.hindsight .shared 2 true) (Dice.always (1 / 3 : ℚ))).setDomain coins
      let versions ← t'.versions
      pure (versions.determinized.functions, versions.determinized.requirements,
        versions.determinized.actions.any fun a =>
          a.effect.modifiedFunctions.contains totalCostAtom.name)).toOption =
        some ([⟨"tosses", []⟩, totalCostAtom], [.typing, .numericFluents, .actionCosts], true) := by decide +kernel
  rw [to_option_iff] at run
  simp only [bind_ok_iff, pure_ok_iff, Prod.mk.injEq] at run
  obtain ⟨t', domainSet, versions, current, functions, requirements, pays⟩ := run
  obtain ⟨a, member, paid⟩ := List.any_eq_true.mp pays
  obtain ⟨versions', again, -, classical, -, costs⟩ := determinized_domains_are_classical _ t' coins domainSet
  cases current.symm.trans again
  obtain ⟨op, fluent, value, inside, isCost⟩ := (a.effect.mem_modified_functions _).mp (List.contains_iff_mem.mp paid)
  obtain ⟨q, t'', completed, -, cost, metric⟩ := costs a member op fluent value inside isCost twoCoins
  have atFirst := cost.trans (show _ = some (0 : ℚ) by decide +kernel)
  exact ⟨t', versions, q, t'', domainSet, current, classical, functions, requirements, completed, atFirst, metric⟩

end Replan
