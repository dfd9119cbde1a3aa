import Replan.Proofs.Source.ProblemRoundTrip

set_option autoImplicit false

namespace Replan

open Results Source

variable {R : Type} {licence other : RequirementSet → Prop} {number : R → Prop}

theorem Source.declares_opens {isWord : String → Prop} (ts : List Term) (declares : Declares isWord licence ts) :
    ∀ oneOf ∈ Term.needs ts, licence oneOf := by
  by_cases typed : (ts.any fun t => t.kind.isSome) = true
  · obtain ⟨t, member, hasKind⟩ := List.any_eq_true.mp typed
    obtain ⟨kind, given⟩ := Option.isSome_iff_exists.mp hasKind
    rw [Term.needs, if_pos typed]
    exact List.forall_mem_singleton.mpr ((declares t member).2 kind given).2
  · rw [Term.needs, if_neg typed]
    simp

namespace Query

theorem expression_opens (q : Query R) (numeric : q.IsExpression licence number) :
    ∀ oneOf ∈ q.needs, licence oneOf := by
  induction q with
  | constant x => simp [needs]
  | fluent a => exact List.forall_mem_singleton.mpr numeric.2
  | arithmetic op left right leftIH rightIH =>
      rw [needs, List.forall_mem_append]
      exact ⟨leftIH numeric.1, rightIH numeric.2⟩
  | _ => cases numeric

theorem legible_opens (q : Query R) (legible : q.Legible licence number) : ∀ oneOf ∈ q.needs, licence oneOf := by
  induction q with
  | always | fact => simp [needs]
  | comparison op left right _ _ =>
      rw [needs, List.forall_mem_append]
      exact ⟨expression_opens left legible.1, expression_opens right legible.2⟩
  | conj parts ih =>
      rw [Legible, legible_list] at legible
      rw [needs, forall_mem_needs]
      exact fun q member => ih q member (legible.2 q member)
  | disj parts ih =>
      rw [Legible, legible_list] at legible
      rw [needs, List.forall_mem_cons, forall_mem_needs]
      exact ⟨legible.1, fun q member => ih q member (legible.2 q member)⟩
  | neg body ih => exact ih legible
  | imply premise conclusion first second =>
      rw [needs, List.forall_mem_cons, List.forall_mem_append]
      exact ⟨legible.1, first legible.2.1, second legible.2.2⟩
  | forAll vars body ih | forSome vars body ih =>
      rw [needs, List.forall_mem_cons, List.forall_mem_append]
      exact ⟨legible.1, declares_opens vars legible.2.1, ih legible.2.2⟩
  | _ => cases legible

end Query

namespace Effect

mutual
def needs : Effect R → List RequirementSet
  | skip => []
  | add _ => []
  | delete _ => []
  | conj parts => needsList parts
  | forAll vars body => [.conditionalEffects] :: (Term.needs vars ++ needs body)
  | when condition body => [.conditionalEffects] :: (condition.needs ++ needs body)
  | assign _ _ value => fluentRequirements :: value.needs
  | probabilistic outcomes => [.probabilisticEffects] :: needsOutcomes outcomes

def needsList : List (Effect R) → List RequirementSet
  | [] => []
  | e :: es => needs e ++ needsList es

def needsOutcomes : List (R × Effect R) → List RequirementSet
  | [] => []
  | (_, e) :: rest => needs e ++ needsOutcomes rest
end

theorem forall_mem_needs (es : List (Effect R)) :
    (∀ oneOf ∈ needsList es, licence oneOf) ↔ ∀ e ∈ es, ∀ oneOf ∈ e.needs, licence oneOf := by
  induction es with
  | nil => simp [needsList]
  | cons e es ih => rw [needsList, List.forall_mem_append, ih, List.forall_mem_cons]

theorem forall_mem_needs_outcomes (outcomes : List (R × Effect R)) :
    (∀ oneOf ∈ needsOutcomes outcomes, licence oneOf) ↔
      ∀ outcome ∈ outcomes, ∀ oneOf ∈ outcome.2.needs, licence oneOf := by
  induction outcomes with
  | nil => simp [needsOutcomes]
  | cons outcome outcomes ih => rw [needsOutcomes, List.forall_mem_append, ih, List.forall_mem_cons]

theorem legible_opens [Number R] (e : Effect R) (legible : e.Legible licence number) :
    ∀ oneOf ∈ e.needs, licence oneOf := by
  induction e with
  | skip | add | delete => simp [needs]
  | conj parts ih =>
      rw [Legible, legible_list] at legible
      rw [needs, forall_mem_needs]
      exact fun e member => ih e member (legible.2 e member)
  | forAll vars body ih =>
      rw [needs, List.forall_mem_cons, List.forall_mem_append]
      exact ⟨legible.1, declares_opens vars legible.2.1, ih legible.2.2⟩
  | when condition body ih =>
      rw [needs, List.forall_mem_cons, List.forall_mem_append]
      exact ⟨legible.1, condition.legible_opens legible.2.1, ih legible.2.2⟩
  | assign op fluent value =>
      rw [needs, List.forall_mem_cons]
      exact ⟨legible.1, value.expression_opens legible.2.2⟩
  | probabilistic outcomes ih =>
      obtain ⟨licensed, -, -, each⟩ := legible
      rw [legible_outcomes] at each
      rw [needs, List.forall_mem_cons, forall_mem_needs_outcomes]
      exact ⟨licensed, fun outcome member => ih outcome member (each outcome member).2⟩

theorem legible_needs [Number R] (e : Effect R) (legible : e.Legible licence number)
    (opened : ∀ oneOf ∈ e.needs, other oneOf) : e.Legible other number := by
  induction e with
  | skip => trivial
  | add | delete => exact legible
  | conj parts ih =>
      rw [needs, forall_mem_needs] at opened
      rw [Legible, legible_list] at legible ⊢
      exact ⟨legible.1, fun e member => ih e member (legible.2 e member) (opened e member)⟩
  | forAll vars body ih =>
      rw [needs, List.forall_mem_cons, List.forall_mem_append] at opened
      exact ⟨opened.1, declares_needs vars legible.2.1 opened.2.1, ih legible.2.2 opened.2.2⟩
  | when condition body ih =>
      rw [needs, List.forall_mem_cons, List.forall_mem_append] at opened
      exact ⟨opened.1, condition.legible_needs legible.2.1 opened.2.1, ih legible.2.2 opened.2.2⟩
  | assign op fluent value =>
      rw [needs, List.forall_mem_cons] at opened
      exact ⟨opened.1, legible.2.1, value.expression_needs legible.2.2 opened.2⟩
  | probabilistic outcomes ih =>
      obtain ⟨-, nonempty, distribution, each⟩ := legible
      rw [legible_outcomes] at each
      rw [needs, List.forall_mem_cons, forall_mem_needs_outcomes] at opened
      refine ⟨opened.1, nonempty, distribution, (legible_outcomes _ _ outcomes).mpr fun outcome member => ?_⟩
      exact ⟨(each outcome member).1, ih outcome member (each outcome member).2 (opened.2 outcome member)⟩

end Effect

def Action.needs (a : Action R) : List RequirementSet :=
  Term.needs a.parameters ++ (a.precondition.needs ++ a.effect.needs)

def Domain.needs (d : Domain R) : List RequirementSet :=
  d.types.parents.map (fun _ => [.typing]) ++ (Term.needs d.constants ++
    (d.predicates.flatMap (fun p => Term.needs p.args) ++
      (d.functions.flatMap (fun f => fluentRequirements :: Term.needs f.args) ++ d.actions.flatMap Action.needs)))

variable [Number R]

theorem Domain.legible_opens (d : Domain R) (legible : d.Legible licence number)
    (preconditions : ∀ a ∈ d.actions, a.precondition.Legible licence number) : ∀ oneOf ∈ d.needs, licence oneOf := by
  simp only [needs, List.forall_mem_append, List.forall_mem_map, List.forall_mem_flatMap, List.forall_mem_cons]
  refine ⟨fun pair member => (legible.types pair member).2.2, declares_opens d.constants legible.constants, ?_, ?_, ?_⟩
  · exact fun p member => declares_opens p.args (legible.predicates p member).2
  · intro f member
    obtain ⟨declared, licensed⟩ := legible.functions f member
    exact ⟨licensed, declares_opens f.args declared.2⟩
  · intro a member
    simp only [Action.needs, List.forall_mem_append]
    have known := legible.actions a member
    exact ⟨declares_opens a.parameters known.parameters, a.precondition.legible_opens (preconditions a member),
      a.effect.legible_opens known.effect⟩

theorem Domain.legible_needs (d : Domain R) (legible : d.Legible licence number)
    (opened : ∀ oneOf ∈ d.needs, other oneOf) : d.Legible other number := by
  simp only [needs, List.forall_mem_append, List.forall_mem_map, List.forall_mem_flatMap, List.forall_mem_cons] at opened
  obtain ⟨types, constants, predicates, functions, actions⟩ := opened
  constructor
  · exact legible.name
  · exact legible.requirements
  · intro pair member
    obtain ⟨child, parent, -⟩ := legible.types pair member
    exact ⟨child, parent, types pair member⟩
  · exact declares_needs d.constants legible.constants constants
  · intro a member
    obtain ⟨isName, declares⟩ := legible.predicates a member
    exact ⟨isName, declares_needs a.args declares (predicates a member)⟩
  · intro f member
    obtain ⟨isName, declares⟩ := (legible.functions f member).1
    exact ⟨⟨isName, declares_needs f.args declares (functions f member).2⟩, (functions f member).1⟩
  · intro a member
    obtain ⟨name, parameters, precondition, effect⟩ := legible.actions a member
    have asked := actions a member
    simp only [Action.needs, List.forall_mem_append] at asked
    exact ⟨name, declares_needs a.parameters parameters asked.1,
      fun written => a.precondition.legible_needs (precondition written) asked.2.1,
      a.effect.legible_needs effect asked.2.2⟩

omit [Number R] in
theorem Problem.legible_opens (p : Problem R) (legible : p.Legible licence number) :
    ∀ oneOf ∈ p.needs, licence oneOf := by
  simp only [needs, List.forall_mem_append, List.forall_mem_map, List.forall_mem_flatMap, Option.mem_toList]
  refine ⟨declares_opens p.objects legible.objects, p.goal.query.legible_opens legible.goal, ?_, ?_⟩
  · exact fun reward member => (legible.reward reward member).2
  · exact fun metric member => metric.expression.expression_opens (legible.metric metric member)

omit [Number R] in
theorem Source.opens_iff (G oneOf : RequirementSet) : Opens G oneOf ↔ ∃ r ∈ oneOf, r ∈ G := by
  simp [Opens, RequirementSet.disjoint, and_comm]

omit [Number R] in
theorem Source.opened_by (known : RequirementSet) (found : Option RequirementSet) (r : Requirement)
    (opened : r ∈ openedBy known found) : r ∈ known ∨ r ∈ RequirementSet.closure (found.getD []) := by
  cases found with
  | none => exact Or.inl opened
  | some declared => exact (RequirementSet.mem_union _ _ r).mp opened

/-- Whatever a domain or a problem that was read is made of, at any depth, some requirement licenses it. -/
theorem constructs_are_licensed :
    (∀ (text : String) (d : Domain R), Domain.parse text = .ok d →
        ∀ oneOf ∈ d.needs, ∃ r ∈ oneOf, r ∈ RequirementSet.closure d.requirements) ∧
      ∀ (d : Domain R) (text : String) (p : Problem R), Problem.parse d text = .ok p →
        ∀ oneOf ∈ p.needs, ∃ r ∈ oneOf, r ∈ RequirementSet.closure d.requirements ∨
          r ∈ RequirementSet.closure ((Problem.declaredBy d text).getD []) := by
  constructor
  · intro text d parsed oneOf needed
    have legible := (Domain.parsed_legible text d parsed).1
    have licensed := d.legible_opens legible (d.parsed_preconditions text parsed) oneOf needed
    exact (opens_iff _ oneOf).mp licensed
  · intro d text p parsed oneOf needed
    obtain ⟨-, -, legible⟩ := p.parsed_licence d text parsed
    obtain ⟨r, asked, opened⟩ := (opens_iff _ oneOf).mp (p.legible_opens legible oneOf needed)
    exact ⟨r, asked, opened_by _ _ r opened⟩

def shopText : String :=
  "(define (domain shop) (:requirements :adl :fluents :probabilistic-effects) (:types item)
    (:predicates (sold ?i - item)) (:functions (price ?i - item))
    (:action sell :parameters (?i - item) :precondition (or (sold ?i) (imply (sold ?i) (exists (?j) (sold ?j))))
      :effect (probabilistic 0.5 (when (sold ?i) (increase (price ?i) (price ?i))))))"

theorem constructs_are_licensed_shop : ∃ (d e : Domain Float) (p : Problem Float), Domain.parse shopText = .ok d ∧
    Domain.parse plainDomainText = .ok e ∧ Problem.parse e rewardedText = .ok p ∧
    d.needs.length = 12 ∧ (∀ oneOf ∈ d.needs, ∃ r ∈ oneOf, r ∈ RequirementSet.closure d.requirements) ∧
    p.needs = [[.rewards]] ∧ e.requirements = [] ∧ Problem.declaredBy e rewardedText = some [.rewards] ∧
    ∀ oneOf ∈ p.needs, ∃ r ∈ oneOf, r ∈ RequirementSet.closure e.requirements ∨
      r ∈ RequirementSet.closure ((Problem.declaredBy e rewardedText).getD []) := by
  have shop : ((Domain.parse (R := Float) shopText).map fun d => d.needs.length).toOption = some 12 := by
    rw [Domain.parse, Cursor.ofText, shopText, String.toList_ofList]
    decide +kernel
  have rewarded : (do
      let e ← Domain.parse (R := Float) plainDomainText
      let p ← Problem.parse e rewardedText
      pure (p.needs, e.requirements, Problem.declaredBy e rewardedText)).toOption =
        some ([[.rewards]], [], some [.rewards]) := by
    simp only [Domain.parse, Problem.parse, Problem.declaredBy, Cursor.ofText]
    rw [plainDomainText, rewardedText, String.toList_ofList, String.toList_ofList]
    decide +kernel
  rw [to_option_iff] at shop rewarded
  obtain ⟨d, domain, count⟩ := (map_ok_iff _ _ _).mp shop
  simp only [bind_ok_iff, pure_ok_iff, Prod.mk.injEq] at rewarded
  obtain ⟨e, plain, p, problem, needed, required, own⟩ := rewarded
  obtain ⟨inDomain, inProblem⟩ := constructs_are_licensed (R := Float)
  exact ⟨d, e, p, domain, plain, problem, count, inDomain shopText d domain, needed, required, own,
    inProblem e rewardedText p problem⟩

end Replan
