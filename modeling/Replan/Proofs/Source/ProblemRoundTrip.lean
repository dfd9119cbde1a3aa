import Replan.Proofs.Source.DomainRoundTrip
import Replan.Proofs.Source.ReadProblems

set_option autoImplicit false

namespace Replan

open Results Source

variable {R : Type}

def Term.needs (ts : List Term) : List RequirementSet := if ts.any fun t => t.kind.isSome then [[.typing]] else []

theorem Source.declares_needs {isWord : String → Prop} {licence other : RequirementSet → Prop} (ts : List Term)
    (declares : Declares isWord licence ts) (opened : ∀ oneOf ∈ Term.needs ts, other oneOf) : Declares isWord other ts := by
  intro t member
  refine ⟨(declares t member).1, fun kind typed => ⟨((declares t member).2 kind typed).1, opened _ ?_⟩⟩
  have some : (ts.any fun t => t.kind.isSome) = true := List.any_eq_true.mpr ⟨t, member, by rw [typed]; rfl⟩
  rw [Term.needs, if_pos some]
  exact List.mem_singleton_self _

namespace Query

mutual
def needs : Query R → List RequirementSet
  | always => []
  | fact _ => []
  | fluent _ => [fluentRequirements]
  | constant _ => []
  | arithmetic _ left right => needs left ++ needs right
  | comparison _ left right => needs left ++ needs right
  | conj parts => needsList parts
  | disj parts => [.disjunctivePreconditions] :: needsList parts
  | neg body => needs body
  | imply premise conclusion => [.disjunctivePreconditions] :: (needs premise ++ needs conclusion)
  | forAll vars body => [.universalPreconditions] :: (Term.needs vars ++ needs body)
  | forSome vars body => [.existentialPreconditions] :: (Term.needs vars ++ needs body)

def needsList : List (Query R) → List RequirementSet
  | [] => []
  | q :: qs => needs q ++ needsList qs
end

theorem forall_mem_needs {licence : RequirementSet → Prop} (qs : List (Query R)) :
    (∀ oneOf ∈ needsList qs, licence oneOf) ↔ ∀ q ∈ qs, ∀ oneOf ∈ q.needs, licence oneOf := by
  induction qs with
  | nil => simp [needsList]
  | cons q qs ih => rw [needsList, List.forall_mem_append, ih, List.forall_mem_cons]

variable {licence other : RequirementSet → Prop} {number : R → Prop}

theorem expression_needs (q : Query R) (numeric : q.IsExpression licence number) (opened : ∀ oneOf ∈ q.needs, other oneOf) :
    q.IsExpression other number := by
  induction q with
  | constant x => exact numeric
  | fluent a => exact ⟨numeric.1, opened _ (List.mem_singleton_self _)⟩
  | arithmetic op left right leftIH rightIH =>
      rw [needs, List.forall_mem_append] at opened
      exact ⟨leftIH numeric.1 opened.1, rightIH numeric.2 opened.2⟩
  | _ => cases numeric

theorem legible_needs (q : Query R) (legible : q.Legible licence number) (opened : ∀ oneOf ∈ q.needs, other oneOf) :
    q.Legible other number := by
  induction q with
  | always => trivial
  | fact a => exact legible
  | comparison op left right _ _ =>
      rw [needs, List.forall_mem_append] at opened
      exact ⟨expression_needs left legible.1 opened.1, expression_needs right legible.2 opened.2⟩
  | conj parts ih =>
      rw [needs, forall_mem_needs] at opened
      rw [Legible, legible_list] at legible ⊢
      exact ⟨legible.1, fun q member => ih q member (legible.2 q member) (opened q member)⟩
  | disj parts ih =>
      rw [needs, List.forall_mem_cons, forall_mem_needs] at opened
      rw [Legible, legible_list] at legible ⊢
      exact ⟨opened.1, fun q member => ih q member (legible.2 q member) (opened.2 q member)⟩
  | neg body ih => exact ih legible opened
  | imply premise conclusion first second =>
      rw [needs, List.forall_mem_cons, List.forall_mem_append] at opened
      exact ⟨opened.1, first legible.2.1 opened.2.1, second legible.2.2 opened.2.2⟩
  | forAll vars body ih =>
      rw [needs, List.forall_mem_cons, List.forall_mem_append] at opened
      exact ⟨opened.1, declares_needs vars legible.2.1 opened.2.1, ih legible.2.2 opened.2.2⟩
  | forSome vars body ih =>
      rw [needs, List.forall_mem_cons, List.forall_mem_append] at opened
      exact ⟨opened.1, declares_needs vars legible.2.1 opened.2.1, ih legible.2.2 opened.2.2⟩
  | _ => cases legible

end Query

namespace Problem

def numbers (p : Problem R) : List R :=
  p.init.values.map Prod.snd ++ (p.goal.query.numbers ++
    (p.goal.reward.toList ++ p.goal.metric.toList.flatMap fun metric => metric.expression.numbers))

def needs (p : Problem R) : List RequirementSet :=
  Term.needs p.objects ++ (p.goal.query.needs ++
    (p.goal.reward.toList.map (fun _ => [.rewards]) ++ p.goal.metric.toList.flatMap fun metric => metric.expression.needs))

variable [Number R] {finite : R → Prop}

omit [Number R] in
theorem legible_needs {licence other : RequirementSet → Prop} (p : Problem R) (legible : p.Legible licence fun _ => True)
    (known : ∀ x ∈ p.numbers, finite x) (opened : ∀ oneOf ∈ p.needs, other oneOf) : p.Legible other finite := by
  simp only [numbers, List.forall_mem_append, List.forall_mem_map, Option.mem_toList] at known
  simp only [needs, List.forall_mem_append, List.forall_mem_map, Option.mem_toList] at opened
  obtain ⟨values, goal, reward, metric⟩ := known
  obtain ⟨objects, query, earned, measured⟩ := opened
  constructor
  · exact legible.name
  · exact legible.domain
  · exact declares_needs p.objects legible.objects objects
  · exact legible.facts
  · exact fun entry member => ⟨(legible.values entry member).1, values entry member⟩
  · exact legible.ordered
  · exact p.goal.query.legible_needs (p.goal.query.legible_numbers legible.goal goal) query
  · exact fun r member => ⟨reward r member, earned r member⟩
  · intro m member
    have inside {α : Type} (f : Metric R → List α) (x : α) (used : x ∈ f m) : x ∈ p.goal.metric.toList.flatMap f :=
      List.mem_flatMap.mpr ⟨m, Option.mem_toList.mpr member, used⟩
    have numeric := m.expression.expression_numbers (legible.metric m member) fun x used => metric x (inside _ x used)
    exact m.expression.expression_needs numeric fun oneOf used => measured oneOf (inside _ oneOf used)

theorem same_as_read (equal : ∀ x : R, finite x → Number.eq x x = true) (p : Problem R)
    (itself : p.domain.same p.domain = true) (known : ∀ x ∈ p.numbers, finite x) : p.same p.asRead = true := by
  simp only [numbers, List.forall_mem_append, List.forall_mem_map, Option.mem_toList] at known
  obtain ⟨numbered, goal, reward, metric⟩ := known
  have terms : Domain.sameList Term.same p.objects (Term.spellOut p.objects) = true := by
    refine Domain.same_lists Term.same _ p.objects fun t _ => ?_
    rw [Term.same, (Term.spelled_keeps _ t).1]
    exact beq_self_eq_true _
  have values : Domain.sameList sameValue p.init.values p.asRead.init.values = true := by
    refine Domain.same_lists sameValue _ p.init.values fun entry member => ?_
    rw [sameValue, Number.unsigned_equal entry.2 (equal _ (numbered entry member)), beq_self_eq_true]
    rfl
  have rewards : sameReward p.goal.reward p.asRead.goal.reward = true := by
    rw [asRead]
    cases given : p.goal.reward with
    | none => rfl
    | some r => exact Number.unsigned_equal r (equal r (reward r given))
  have metrics : sameMetric p.goal.metric p.asRead.goal.metric = true := by
    rw [asRead]
    cases given : p.goal.metric with
    | none => rfl
    | some m =>
        have expression := m.expression.same_as_read equal fun x used =>
          metric x (List.mem_flatMap.mpr ⟨m, Option.mem_toList.mpr given, used⟩)
        rw [Option.map_some, sameMetric, expression, beq_self_eq_true]
        rfl
  rw [same, values, rewards, metrics, asRead]
  simp only [itself, terms, p.goal.query.same_as_read equal goal, Init.asRead, beq_self_eq_true]
  rfl

end Problem

/-- The text of a problem is read back as the same problem, if the domain opens every gate that it passes: what a
problem requires itself is not written. -/
theorem problem_text_round_trip [Number R] [Number.ZerosAlike R] {finite : R → Prop} (readable : Readable finite)
    (d : Domain R) (itself : d.same d = true) (text : String) (p : Problem R) (parsed : Problem.parse d text = .ok p)
    (known : ∀ x ∈ p.numbers, finite x) (opened : ∀ oneOf ∈ p.needs, Opens (RequirementSet.closure d.requirements) oneOf) :
    ∃ q, Problem.parse d p.text = .ok q ∧ p.same q = true := by
  obtain ⟨rfl, declared, licence, legible⟩ := p.parsed_legible d text parsed
  exact ⟨p.asRead, p.parse_text readable (p.legible_needs legible known opened) declared,
    p.same_as_read readable.equal itself known⟩

def stakeDomainText : String :=
  "(define (domain stakes) (:requirements :typing :rewards) (:types coin) (:predicates (won ?c - coin)) (:functions (pot)))"

def stakeText : String :=
  "(define (problem one-stake) (:domain stakes) (:requirements :strips) (:objects cent - coin)
    (:init (= (pot) 0.5)) (:goal (won cent)) (:goal-reward 0.5) (:metric maximize (pot)))"

theorem stakes_parse : ∃ (d : Domain Float) (p : Problem Float), Domain.parse stakeDomainText = .ok d ∧
    d.same d = true ∧ Problem.parse d stakeText = .ok p ∧ (∀ x ∈ p.numbers, x = Number.ofDecimal 5 1) ∧
    ∀ oneOf ∈ p.needs, Opens (RequirementSet.closure d.requirements) oneOf := by
  have run : (do
      let d ← Domain.parse (R := Float) stakeDomainText
      let p ← Problem.parse d stakeText
      pure (d.same d && decide (∀ x ∈ p.numbers, x = Number.ofDecimal 5 1) &&
        p.needs.all fun oneOf => !RequirementSet.disjoint (RequirementSet.closure d.requirements) oneOf)).toOption =
      some true := by
    simp only [Domain.parse, Problem.parse, Cursor.ofText]
    rw [stakeDomainText, stakeText, String.toList_ofList, String.toList_ofList]
    decide +kernel
  obtain ⟨d, domain, run⟩ := (bind_ok_iff _ _ _).mp ((to_option_iff _ _).mp run)
  obtain ⟨p, problem, run⟩ := (bind_ok_iff _ _ _).mp run
  rw [pure_ok_iff, Bool.and_eq_true, Bool.and_eq_true, decide_eq_true_eq, List.all_eq_true] at run
  exact ⟨d, p, domain, run.1.1, problem, run.1.2, fun oneOf member => by simpa [Opens] using run.2 oneOf member⟩

theorem problem_text_round_trip_stakes : ∃ (d : Domain Float) (p : Problem Float), d.same d = true ∧
    Problem.parse d stakeText = .ok p ∧ (∀ x ∈ p.numbers, x = Number.ofDecimal 5 1) ∧
    (∀ oneOf ∈ p.needs, Opens (RequirementSet.closure d.requirements) oneOf) ∧
    ∃ q, Problem.parse d p.text = .ok q ∧ p.same q = true := by
  obtain ⟨d, p, -, itself, parsed, known, opened⟩ := stakes_parse
  exact ⟨d, p, itself, parsed, known, opened, problem_text_round_trip half_readable d itself stakeText p parsed known opened⟩

def plainDomainText : String := "(define (domain pd) (:predicates (p) (q ?x)))"

def rewardedText : String :=
  "(define (problem prob) (:domain pd) (:requirements :rewards) (:init) (:goal (p)) (:goal-reward 2))"

/-- A reward that only the requirements of the problem license is read, and refused when it is read back. -/
theorem problem_requirements_forgotten : ∃ (d : Domain Float) (p : Problem Float),
    Domain.parse plainDomainText = .ok d ∧ Problem.parse d rewardedText = .ok p ∧ p.numbers = [Number.ofDecimal 2 0] ∧
      ∀ q, Problem.parse d p.text ≠ .ok q := by
  have run : (do
      let d ← Domain.parse (R := Float) plainDomainText
      let p ← Problem.parse d rewardedText
      pure (decide (p.numbers = [Number.ofDecimal 2 0]) && !(Problem.parse d p.text).isOk)).toOption = some true := by
    simp only [Domain.parse, Problem.parse, Cursor.ofText, problem_text]
    rw [plainDomainText, rewardedText, String.toList_ofList, String.toList_ofList]
    decide +kernel
  obtain ⟨d, domain, run⟩ := (bind_ok_iff _ _ _).mp ((to_option_iff _ _).mp run)
  obtain ⟨p, problem, run⟩ := (bind_ok_iff _ _ _).mp run
  rw [pure_ok_iff, Bool.and_eq_true, decide_eq_true_eq] at run
  refine ⟨d, p, domain, problem, run.1, fun q again => ?_⟩
  rw [again] at run
  exact Bool.false_ne_true run.2

end Replan
