import Replan.Proofs.Determinize.Classical
import Replan.Proofs.Source.Layout
import Replan.Proofs.Source.SimplifiedText

set_option autoImplicit false

namespace Replan

open Source

namespace Source

def Letters (text : String) : Prop := ∀ c ∈ text.toList, isNameChar c = true ∧ c.toLower = c

instance : DecidablePred Letters := fun text =>
  decidable_of_iff ((text.toList.all fun c => isNameChar c && c.toLower == c) = true) (by simp [Letters])

theorem letters_append (first second : String) (before : Letters first) (after : Letters second) :
    Letters (first ++ second) := by
  rw [Letters, String.toList_append, List.forall_mem_append]
  exact ⟨before, after⟩

theorem letters_number (n : Nat) : Letters (toString n) := by
  intro c member
  have digit := Names.digits_of_number n c member
  exact ⟨by simp [isNameChar, Char.isAlphanum, digit], digit_unchanged c digit⟩

theorem name_append (n rest : String) (isName : IsName n) (letters : Letters rest) : IsName (n ++ rest) := by
  obtain ⟨c, first, start⟩ := (Option.any_eq_true _ _).mp isName.1
  refine ⟨?_, letters_append n rest isName.2 letters⟩
  rw [String.toList_append, List.head?_append, first]
  exact start

theorem reserved_no_word (name : String) (isReserved : Names.reserved name = true) :
    name ∉ Query.words ∧ name ∉ Effect.words := by
  have plain : ∀ word ∈ Query.words ++ Effect.words, Names.reserved word = false := by decide
  rw [List.forall_mem_append] at plain
  constructor
  · intro member
    exact Bool.false_ne_true ((plain.1 name member).symm.trans isReserved)
  · intro member
    exact Bool.false_ne_true ((plain.2 name member).symm.trans isReserved)

end Source

theorem variant_name_reads (base : String) (i : Nat) (isName : IsName base) : IsName (variantName base i) :=
  name_append _ _ (name_append base "_o" isName (by decide)) (letters_number i)

variable {R : Type} {licence : RequirementSet → Prop}

namespace Hindsight

theorem reserved_name (rest : String) (letters : Letters rest) : IsName ("hs-" ++ rest) :=
  name_append "hs-" rest (by decide) letters

theorem step_reads (i : Nat) : IsName (stepName i) := reserved_name _ (letters_number i)

theorem choice_reads (a : String) (i : Nat) (isName : IsName a) : IsName (choiceName a i) :=
  name_append _ _ (name_append _ "-o" (reserved_name a isName.2) (by decide)) (letters_number i)

theorem token_reads (method : WheelMethod) (a : String) (isName : IsName a) : IsName (tokenName method a) := by
  cases method with
  | shared => exact show IsName nowName by decide
  | perAction => exact name_append _ "-at" (reserved_name a isName.2) (by decide)

theorem current_reads : IsTerm current := ⟨rfl, .inr ⟨"hs-t", by decide, rfl⟩⟩

theorem following_reads : IsTerm following := ⟨rfl, .inr ⟨"hs-u", by decide, rfl⟩⟩

theorem steps_declared (typing : licence [.typing]) :
    Declares IsVariable licence [stepTerm currentVariable, stepTerm followingVariable] := by
  have kind : ∀ k ∈ some stepType, IsName k ∧ licence [.typing] := by
    rintro k ⟨⟩
    exact ⟨by decide, typing⟩
  refine List.forall_mem_cons.mpr ⟨⟨⟨"hs-t", by decide, rfl⟩, kind⟩, List.forall_mem_singleton.mpr ?_⟩
  exact ⟨⟨"hs-u", by decide, rfl⟩, kind⟩

variable [Number R]

theorem on_wheel_asks (token choice : String) (a : Action R) (licensed : licence [.disjunctivePreconditions])
    (names : IsName token ∧ IsName choice) (isReserved : Names.reserved token = true ∧ Names.reserved choice = true)
    (precondition : a.precondition.Legible licence fun _ => True) :
    (onWheel token choice a).precondition.Legible licence fun _ => True := by
  have fact (name : String) (isName : IsName name) (kept : Names.reserved name = true) (args : List Term)
      (terms : ∀ t ∈ args, IsTerm t) : (Query.fact ⟨name, args⟩ : Query R).Legible licence fun _ => True :=
    .atom ⟨name, args⟩ ⟨isName, terms⟩ (reserved_no_word name kept).1
  have now : ∀ t ∈ [current], IsTerm t := List.forall_mem_singleton.mpr current_reads
  have both : ∀ t ∈ [current, following], IsTerm t :=
    List.forall_mem_cons.mpr ⟨current_reads, List.forall_mem_singleton.mpr following_reads⟩
  refine Query.simplify_legible licensed _ ⟨List.cons_ne_nil _ _, ?_⟩
  exact ⟨precondition, fact token names.1 isReserved.1 _ now, fact nextName (by decide) next_reserved _ both,
    fact choice names.2 isReserved.2 _ now, trivial⟩

theorem on_wheel_spelled (token choice : String) (a : Action R) (licensed : licence [.disjunctivePreconditions])
    (isName : IsName token) (isReserved : Names.reserved token = true) (spelled : a.effect.Spelled licence) :
    (onWheel token choice a).effect.Spelled licence := by
  have left : (Effect.delete ⟨token, [current]⟩ : Effect R).Spelled licence :=
    List.forall_mem_singleton.mpr ⟨isName, List.forall_mem_singleton.mpr current_reads⟩
  have reached : (Effect.add ⟨token, [following]⟩ : Effect R).Spelled licence :=
    List.forall_mem_singleton.mpr
      ⟨⟨isName, List.forall_mem_singleton.mpr following_reads⟩, (reserved_no_word token isReserved).2⟩
  refine Effect.simplify_spelled licensed _ ((Effect.throughout_conj Effect.spells_shallow _).mpr ?_)
  simp only [List.forall_mem_cons, List.not_mem_nil, false_implies, implies_true, and_true]
  exact ⟨spelled, left, reached⟩

theorem settle_rewards_spelled (transformRewards : Bool) (e : Effect R) (licensed : licence [.disjunctivePreconditions])
    (fluents : licence fluentRequirements) (spelled : e.Spelled licence) :
    (settleRewards transformRewards e).Spelled licence := by
  unfold settleRewards
  split
  · exact Effect.simplify_spelled licensed _ (Effect.rewards_to_costs_spelled fluents e spelled)
  · exact Effect.simplify_spelled licensed _ (Effect.without_rewards_spelled e spelled)

end Hindsight

namespace Strategy

variable [Number R]

theorem commit_normal (strategy : Strategy R) (b : Action R) (i : Nat) (outcome : R × Effect R) :
    (strategy.commit b i outcome).effect.Normal := by
  cases strategy with
  | allOutcome | singleOutcome => exact Effect.simplify_normal _
  | alphaCost pricing =>
      simp only [commit, Action.variant, Effect.addCost]
      split <;> exact Effect.simplify_normal _
  | hindsight method size transformRewards =>
      simp only [commit, Hindsight.variantAt]
      split
      · exact Effect.simplify_normal _
      · simp only [Action.variant, Hindsight.settleRewards]
        split <;> exact Effect.simplify_normal _

variable (licensed : licence [.disjunctivePreconditions]) (fluents : licence fluentRequirements)

include licensed fluents

theorem commit_spelled (strategy : Strategy R) (b : Action R) (i : Nat) (outcome : R × Effect R) (name : IsName b.name)
    (spelled : outcome.2.Spelled licence) : (strategy.commit b i outcome).effect.Spelled licence := by
  cases strategy with
  | allOutcome | singleOutcome =>
      exact Effect.simplify_spelled licensed _ (Effect.without_rewards_spelled outcome.2 spelled)
  | alphaCost pricing =>
      have costly := Effect.scale_costs_spelled fluents pricing.alpha _
        (Effect.rewards_to_costs_spelled fluents outcome.2 spelled)
      have priced : (AlphaCost.priced pricing outcome.2).Spelled licence := Effect.simplify_spelled licensed _ costly
      simp only [commit, Action.variant, Effect.addCost]
      split
      · exact priced
      · refine Effect.simplify_spelled licensed _ ((Effect.throughout_conj Effect.spells_shallow _).mpr ?_)
        simp only [List.forall_mem_cons, List.not_mem_nil, false_implies, implies_true, and_true]
        exact ⟨priced, Effect.cost_spelled fluents .increase _ trivial⟩
  | hindsight method size transformRewards =>
      have plain := Hindsight.settle_rewards_spelled transformRewards outcome.2 licensed fluents spelled
      simp only [commit, Hindsight.variantAt]
      split
      · exact Hindsight.on_wheel_spelled _ _ _ licensed (Hindsight.token_reads method b.name name)
          (Hindsight.token_reserved method b.name) plain
      · exact plain

omit fluents in
theorem commit_asks (strategy : Strategy R) (b : Action R) (i : Nat) (outcome : R × Effect R) (name : IsName b.name)
    (precondition : b.precondition.Legible licence fun _ => True) :
    (strategy.commit b i outcome).precondition.Legible licence fun _ => True := by
  cases strategy with
  | allOutcome | singleOutcome | alphaCost => exact precondition
  | hindsight method size transformRewards =>
      simp only [commit, Hindsight.variantAt]
      split
      · exact Hindsight.on_wheel_asks _ _ _ licensed
          ⟨Hindsight.token_reads method b.name name, Hindsight.choice_reads b.name i name⟩
          ⟨Hindsight.token_reserved method b.name, Hindsight.choice_reserved b.name i⟩ precondition
      · exact precondition

omit licensed fluents in
theorem commit_parameters_keep (P : Term → Prop) (strategy : Strategy R) (b : Action R) (i : Nat) (outcome : R × Effect R)
    (parameters : ∀ t ∈ b.parameters, P t)
    (steps : strategy.usesWheel = true → Hindsight.isWheeled b = true →
      ∀ t ∈ [Hindsight.stepTerm Hindsight.currentVariable, Hindsight.stepTerm Hindsight.followingVariable], P t) :
    ∀ t ∈ (strategy.commit b i outcome).parameters, P t := by
  cases strategy with
  | allOutcome | singleOutcome | alphaCost => exact parameters
  | hindsight method size transformRewards =>
      simp only [commit, Hindsight.variantAt]
      split
      · next wheel => exact List.forall_mem_append.mpr ⟨parameters, steps rfl wheel⟩
      · exact parameters

theorem commit_legible (strategy : Strategy R) (b : Action R) (i : Nat) (outcome : R × Effect R) (name : IsName b.name)
    (parameters : Declares IsVariable licence b.parameters)
    (precondition : b.precondition.Legible licence fun _ => True) (certain : outcome.2.hasProbabilistic = false)
    (spelled : outcome.2.Spelled licence)
    (typing : strategy.usesWheel = true → Hindsight.isWheeled b = true → licence [.typing]) :
    (strategy.commit b i outcome).Legible licence fun _ => True where
  name := by
    rw [(strategy.commit_commits b i outcome).name]
    exact variant_name_reads b.name i name
  parameters := strategy.commit_parameters_keep _ b i outcome parameters fun wheel wheeled =>
    Hindsight.steps_declared (typing wheel wheeled)
  precondition _ := commit_asks licensed strategy b i outcome name precondition
  effect := Effect.normal_legible _ (strategy.commit_normal b i outcome)
    (strategy.commit_deterministic b i outcome certain) (commit_spelled licensed fluents strategy b i outcome name spelled)

end Strategy

end Replan
