import Replan.Effect.Costs
import Replan.Proofs.Effect.NormalForm
import Replan.Proofs.Effect.Throughout
import Replan.Proofs.Source.Licences

set_option autoImplicit false

namespace Replan

open Source

variable {R : Type} {licence other : RequirementSet → Prop} {number : R → Prop}

namespace Query

def gates : List RequirementSet :=
  [[.typing], [.disjunctivePreconditions], [.existentialPreconditions], [.universalPreconditions], fluentRequirements]

theorem term_typing (ts : List Term) : ∀ oneOf ∈ Term.needs ts, oneOf = [.typing] := by
  rw [Term.needs]
  split
  · exact List.forall_mem_singleton.mpr rfl
  · simp

theorem term_gates (ts : List Term) : ∀ oneOf ∈ Term.needs ts, oneOf ∈ gates := by
  intro oneOf needed
  rw [term_typing ts oneOf needed]
  decide

theorem needs_gates (q : Query R) : ∀ oneOf ∈ q.needs, oneOf ∈ gates := by
  induction q with
  | always | fact | constant => simp [needs]
  | fluent a => exact List.forall_mem_singleton.mpr (by decide)
  | arithmetic op left right leftIH rightIH | comparison op left right leftIH rightIH =>
      rw [needs, List.forall_mem_append]
      exact ⟨leftIH, rightIH⟩
  | conj parts ih =>
      rw [needs, forall_mem_needs]
      exact ih
  | disj parts ih =>
      rw [needs, List.forall_mem_cons, forall_mem_needs]
      exact ⟨by decide, ih⟩
  | neg body ih => exact ih
  | imply premise conclusion first second =>
      rw [needs, List.forall_mem_cons, List.forall_mem_append]
      exact ⟨by decide, first, second⟩
  | forAll vars body ih | forSome vars body ih =>
      rw [needs, List.forall_mem_cons, List.forall_mem_append]
      exact ⟨by decide, term_gates vars, ih⟩

theorem legible_gates (given : ∀ oneOf ∈ gates, licence oneOf → other oneOf) (q : Query R)
    (legible : q.Legible licence number) : q.Legible other number :=
  q.legible_needs legible fun oneOf needed => given oneOf (q.needs_gates oneOf needed) (q.legible_opens legible oneOf needed)

theorem expression_gates (given : ∀ oneOf ∈ gates, licence oneOf → other oneOf) (q : Query R)
    (numeric : q.IsExpression licence number) : q.IsExpression other number :=
  q.expression_needs numeric fun oneOf needed =>
    given oneOf (q.needs_gates oneOf needed) (q.expression_opens numeric oneOf needed)

section Simplified

theorem conjuncts_legible (q : Query R) (legible : q.Legible licence number) :
    ∀ part ∈ conjuncts q, part.Legible licence number := by
  cases q with
  | always => simp [conjuncts]
  | conj parts => exact (legible_list licence number parts).mp legible.2
  | _ => exact List.forall_mem_singleton.mpr legible

theorem disjuncts_legible (q : Query R) (legible : q.Legible licence number) :
    ∀ part ∈ disjuncts q, part.Legible licence number := by
  cases q with
  | disj parts => exact (legible_list licence number parts).mp legible.2
  | _ => exact List.forall_mem_singleton.mpr legible

variable (licensed : licence [.disjunctivePreconditions])

include licensed

theorem falsity_legible : (falsity : Query R).Legible licence number := ⟨licensed, trivial⟩

theorem conjoin_legible (parts : List (Query R)) (each : ∀ q ∈ parts, q.Legible licence number) :
    (conjoin parts).Legible licence number := by
  have flat : ∀ q ∈ parts.flatMap conjuncts, q.Legible licence number := by
    intro q member
    obtain ⟨whole, inParts, inWhole⟩ := List.mem_flatMap.mp member
    exact conjuncts_legible whole (each whole inParts) q inWhole
  unfold conjoin
  split
  · exact falsity_legible licensed
  · generalize parts.flatMap conjuncts = found at flat ⊢
    rcases found with _ | ⟨q, _ | ⟨r, rest⟩⟩
    · trivial
    · exact flat q List.mem_cons_self
    · exact ⟨List.cons_ne_nil _ _, (legible_list licence number _).mpr flat⟩

theorem disjoin_legible (parts : List (Query R)) (each : ∀ q ∈ parts, q.Legible licence number) :
    (disjoin parts).Legible licence number := by
  have flat : ∀ q ∈ parts.flatMap disjuncts, q.Legible licence number := by
    intro q member
    obtain ⟨whole, inParts, inWhole⟩ := List.mem_flatMap.mp member
    exact disjuncts_legible whole (each whole inParts) q inWhole
  unfold disjoin
  split
  · trivial
  · generalize parts.flatMap disjuncts = found at flat ⊢
    rcases found with _ | ⟨q, _ | ⟨r, rest⟩⟩
    · exact falsity_legible licensed
    · exact flat q List.mem_cons_self
    · exact ⟨licensed, (legible_list licence number _).mpr flat⟩

theorem negate_legible (q : Query R) (legible : q.Legible licence number) : (negate q).Legible licence number := by
  cases q with
  | always => exact falsity_legible licensed
  | disj parts =>
      cases parts with
      | nil => trivial
      | cons q parts => exact legible
  | _ => exact legible

theorem entail_legible (premise conclusion : Query R) (first : premise.Legible licence number)
    (second : conclusion.Legible licence number) : (entail premise conclusion).Legible licence number := by
  unfold entail
  split
  · exact second
  · split
    · trivial
    · exact ⟨licensed, first, second⟩

variable [Number R]

omit licensed in
theorem combine_expression (op : ArithmeticOp) (left right : Query R)
    (numeric : (arithmetic op left right).IsExpression licence fun _ => True) :
    (combine op left right).IsExpression licence fun _ => True := by
  obtain ⟨first, second⟩ := numeric
  unfold combine
  split
  · trivial
  · split
    · trivial
    · split
      · exact second
      · split
        · exact first
        · exact ⟨first, second⟩
  · split
    · exact second
    · split
      · exact first
      · exact ⟨first, second⟩
  · split
    · exact first
    · exact ⟨first, second⟩
  · exact ⟨first, second⟩

omit licensed in
theorem simplify_expression (q : Query R) (numeric : q.IsExpression licence fun _ => True) :
    q.simplify.IsExpression licence fun _ => True := by
  induction q with
  | fluent | constant => exact numeric
  | arithmetic op left right leftIH rightIH =>
      exact combine_expression op _ _ ⟨leftIH numeric.1, rightIH numeric.2⟩
  | _ => cases numeric

theorem compare_legible (op : Comparison) (left right : Query R)
    (legible : (comparison op left right).Legible licence fun _ => True) :
    (compare op left right).Legible licence fun _ => True := by
  unfold compare
  split
  · split
    · trivial
    · exact falsity_legible licensed
  · exact legible

theorem simplify_legible (q : Query R) (legible : q.Legible licence fun _ => True) :
    q.simplify.Legible licence fun _ => True := by
  induction q with
  | always | fact => exact legible
  | comparison op left right _ _ =>
      exact compare_legible licensed op _ _ ⟨simplify_expression left legible.1, simplify_expression right legible.2⟩
  | conj parts ih =>
      rw [Legible, legible_list] at legible
      rw [simplify, simplify_list]
      exact conjoin_legible licensed _ (List.forall_mem_map.mpr fun q member => ih q member (legible.2 q member))
  | disj parts ih =>
      rw [Legible, legible_list] at legible
      rw [simplify, simplify_list]
      exact disjoin_legible licensed _ (List.forall_mem_map.mpr fun q member => ih q member (legible.2 q member))
  | neg body ih => exact negate_legible licensed _ (ih legible)
  | imply premise conclusion first second =>
      exact entail_legible licensed _ _ (first legible.2.1) (second legible.2.2)
  | forAll vars body ih | forSome vars body ih =>
      rw [simplify, quantify]
      split
      · trivial
      · exact ⟨legible.1, legible.2.1, ih legible.2.2⟩
  | _ => cases legible

end Simplified

end Query

namespace Effect

def gates : List RequirementSet := [.conditionalEffects] :: Query.gates

-- What a single part of an effect is written with. How parts are joined is left open, since simplification joins
-- them anew.
def Spells (licence : RequirementSet → Prop) : Effect R → Prop
  | add fact => AtomReads fact ∧ fact.name ∉ words
  | delete fact => AtomReads fact
  | forAll vars _ => licence [.conditionalEffects] ∧ Declares IsVariable licence vars
  | when condition _ => licence [.conditionalEffects] ∧ condition.Legible licence fun _ => True
  | assign _ fluent value =>
      licence fluentRequirements ∧ AtomReads fluent ∧ value.IsExpression licence fun _ => True
  | skip | conj _ | probabilistic _ => True

def Spelled (licence : RequirementSet → Prop) : Effect R → Prop := Throughout (Spells licence)

theorem spells_shallow : Shallow (Spells licence : Effect R → Prop) where
  skip := trivial
  conj _ := trivial
  forAll _ _ _ := id
  when _ _ _ := id
  probabilistic _ := trivial

theorem spelled_skip : (skip : Effect R).Spelled licence := throughout_skip spells_shallow

theorem spelled_assign (op : AssignOp) (fluent : Atom) (value : Query R) : (assign op fluent value).Spelled licence ↔
    licence fluentRequirements ∧ AtomReads fluent ∧ value.IsExpression licence fun _ => True :=
  throughout_assign op fluent value

theorem legible_spelled [Number R] (given : ∀ oneOf ∈ gates, licence oneOf → other oneOf) (e : Effect R)
    (legible : e.Legible licence fun _ => True) : e.Spelled other := by
  obtain ⟨conditional, inQueries⟩ := List.forall_mem_cons.mp given
  have declared (vars : List Term) (declares : Declares IsVariable licence vars) : Declares IsVariable other vars :=
    declares_needs vars declares fun oneOf needed =>
      inQueries oneOf (Query.term_gates vars oneOf needed) (declares_opens vars declares oneOf needed)
  induction e with
  | skip | add | delete => exact List.forall_mem_singleton.mpr legible
  | conj parts ih =>
      rw [Legible, legible_list] at legible
      exact (throughout_conj spells_shallow parts).mpr fun e member => ih e member (legible.2 e member)
  | forAll vars body ih =>
      exact (throughout_for_all vars body).mpr
        ⟨⟨conditional legible.1, declared vars legible.2.1⟩, ih legible.2.2⟩
  | when condition body ih =>
      exact (throughout_when condition body).mpr
        ⟨⟨conditional legible.1, condition.legible_gates inQueries legible.2.1⟩, ih legible.2.2⟩
  | assign op fluent value =>
      exact (spelled_assign op fluent value).mpr
        ⟨inQueries _ (by decide) legible.1, legible.2.1, value.expression_gates inQueries legible.2.2⟩
  | probabilistic outcomes ih =>
      obtain ⟨-, -, -, each⟩ := legible
      rw [legible_outcomes] at each
      exact (throughout_choice spells_shallow outcomes).mpr fun outcome member => ih outcome member (each outcome member).2

variable [Number R]

section Simplified

variable (licensed : licence [.disjunctivePreconditions])

include licensed

theorem spells_condition (condition : Query R) (body : Effect R) (spells : (when condition body).Spells licence) :
    (when condition.simplify body).Spells licence :=
  ⟨spells.1, condition.simplify_legible licensed spells.2⟩

omit licensed in
theorem spells_value (op : AssignOp) (fluent : Atom) (value : Query R) (spells : (assign op fluent value).Spells licence) :
    (assign op fluent value.simplify).Spells licence :=
  ⟨spells.1, spells.2.1, value.simplify_expression spells.2.2⟩

theorem simplify_spelled (e : Effect R) (spelled : e.Spelled licence) : e.simplify.Spelled licence :=
  simplify_keeps (throughout_compositional spells_shallow (spells_condition licensed) spells_value) e spelled

theorem spelled_expands : Expands (Spelled licence : Effect R → Prop) (Spelled licence) :=
  throughout_expands spells_shallow (spells_condition licensed) spells_value

end Simplified

theorem normal_legible (e : Effect R) (normal : e.Normal) (certain : e.hasProbabilistic = false)
    (spelled : e.Spelled licence) : e.Legible licence fun _ => True := by
  induction normal with
  | skip => trivial
  | add | delete => exact spelled _ List.mem_cons_self
  | conj parts several _ _ ih =>
      rw [has_probabilistic_conj, List.any_eq_false] at certain
      rw [Legible, legible_list]
      refine ⟨List.ne_nil_of_length_pos (Nat.lt_of_lt_of_le Nat.zero_lt_two several), fun e member => ?_⟩
      exact ih e member (by simpa using certain e member) ((throughout_conj spells_shallow parts).mp spelled e member)
  | forAll vars body _ _ ih =>
      obtain ⟨here, inside⟩ := (throughout_for_all vars body).mp spelled
      exact ⟨here.1, here.2, ih ((has_probabilistic_for_all vars body).symm.trans certain) inside⟩
  | when condition body _ _ _ ih =>
      obtain ⟨here, inside⟩ := (throughout_when condition body).mp spelled
      exact ⟨here.1, here.2, ih ((has_probabilistic_when condition body).symm.trans certain) inside⟩
  | assign op fluent value => exact (spelled_assign op fluent value).mp spelled
  | probabilistic outcomes => rw [has_probabilistic_choice] at certain; cases certain

section Costs

variable (fluents : licence fluentRequirements)

theorem cost_reads : AtomReads totalCostAtom := ⟨by decide, by simp [totalCostAtom]⟩

include fluents

omit [Number R] in
theorem cost_spelled (op : AssignOp) (value : Query R) (numeric : value.IsExpression licence fun _ => True) :
    (cost op value).Spelled licence :=
  (spelled_assign op totalCostAtom value).mpr ⟨fluents, cost_reads, numeric⟩

omit fluents [Number R] in
theorem without_rewards_spelled (e : Effect R) (spelled : e.Spelled licence) : e.withoutRewards.Spelled licence := by
  refine map_assignments_throughout spells_shallow _ (fun op fluent value spells => ?_) e spelled
  rw [unlessOf]
  split
  · exact spelled_skip
  · exact (spelled_assign op fluent value).mpr spells

omit [Number R] in
theorem rewards_to_costs_spelled (e : Effect R) (spelled : e.Spelled licence) : e.rewardsToCosts.Spelled licence := by
  refine map_assignments_throughout spells_shallow _ (fun op fluent value spells => ?_) e spelled
  by_cases same : fluent.same rewardAtom = true
  · simp only [rewardAsCost, if_pos same]
    cases op with
    | increase | decrease => exact cost_spelled fluents _ value spells.2.2
    | assign | scaleUp | scaleDown => exact spelled_skip
  · simp only [rewardAsCost, if_neg same]
    exact (spelled_assign op fluent value).mpr spells

theorem scale_costs_spelled (factor : R) (e : Effect R) (spelled : e.Spelled licence) :
    (e.scaleCosts factor).Spelled licence := by
  refine map_assignments_throughout spells_shallow _ (fun op fluent value spells => ?_) e spelled
  have kept := (spelled_assign op fluent value).mpr spells
  cases op with
  | assign | scaleUp | scaleDown => exact kept
  | increase | decrease =>
      rw [scaledCost]
      split
      · exact cost_spelled fluents _ _ (Query.simplify_expression _ ⟨trivial, spells.2.2⟩)
      · exact kept

end Costs

end Effect

end Replan
