import Replan.Problem
import Replan.Proofs.Results
import Replan.Proofs.Source.FileChecks
import Replan.Proofs.State
import Replan.Source.ProblemFile

set_option autoImplicit false

namespace Replan

open Results Source

variable {R : Type}

namespace Init

structure Ordered (init : Init R) : Prop where
  facts : init.facts.Pairwise (· < ·)
  values : (init.values.map Prod.fst).Pairwise (· < ·)

variable [Number R]

def asRead (init : Init R) : Init R where
  facts := init.facts
  values := init.values.map fun entry => (entry.1, Number.unsigned entry.2)

omit [Number R] in
def elements (init : Init R) : List (Ground × Option R) :=
  init.facts.map (fun fact => (fact, none)) ++ init.values.map fun entry => (entry.1, some entry.2)

end Init

namespace Problem

variable [Number R]

structure Legible (licence : RequirementSet → Prop) (number : R → Prop) (p : Problem R) : Prop where
  name : IsName p.name
  domain : IsName p.domain.name
  objects : Declares IsName licence p.objects
  facts : ∀ fact ∈ p.init.facts, AtomReads fact.atom
  values : ∀ entry ∈ p.init.values, AtomReads entry.1.atom ∧ number entry.2
  ordered : p.init.Ordered
  goal : p.goal.query.Legible licence number
  reward : ∀ reward ∈ p.goal.reward, number reward ∧ licence [.rewards]
  metric : ∀ metric ∈ p.goal.metric, metric.expression.IsExpression licence number

omit [Number R] in
structure Declared (p : Problem R) : Prop where
  distinct : (p.objects.map Term.name).Nodup
  fresh : ∀ t ∈ p.objects, p.domain.constants.any (Term.same t) = false
  types : Domain.Known p.domain.types p.objects

def asRead (p : Problem R) : Problem R where
  name := p.name
  domain := p.domain
  objects := Term.spellOut p.objects
  init := p.init.asRead
  goal :=
    { query := p.goal.query.asRead
      reward := p.goal.reward.map Number.unsigned
      metric := p.goal.metric.map fun metric => ⟨metric.direction, metric.expression.asRead⟩ }

end Problem

namespace Source.ProblemFile

variable [Number R]

structure Checked (d : Domain R) (file : ProblemFile R) : Prop where
  domain : file.domain.2 = d.name
  distinct : ((file.objects.map Prod.snd).map Term.name).Nodup
  fresh : ∀ t ∈ file.objects.map Prod.snd, d.constants.any (Term.same t) = false
  types : Domain.Known d.types (file.objects.map Prod.snd)

def problem (d : Domain R) (file : ProblemFile R) : Problem R :=
  ⟨file.name, d, file.objects.map Prod.snd, file.init, file.goal⟩

omit [Number R] in
theorem check_ok_iff (d : Domain R) (file : ProblemFile R) (p : Problem R) :
    file.check d = .ok p ↔ file.Checked d ∧ file.problem d = p := by
  have fresh : file.objects.find? (constant? d) = none ↔ ∀ t ∈ file.objects.map Prod.snd, d.constants.any (Term.same t) = false := by
    rw [List.find?_eq_none, List.forall_mem_map]
    simp only [constant?, Bool.not_eq_true]
  have refused (e : Error R) (f : Unit → Except (Error R) (Problem R)) : (throw e >>= f) ≠ .ok p := by
    rintro ⟨⟩
  by_cases named : file.domain.2 = d.name
  · have kept : (file.domain.2 != d.name) = false := by simp [named]
    unfold check
    rw [kept]
    simp only [Bool.false_eq_true, if_false, check_then_ok_iff, distinct_ok_iff, term_names]
    cases found : file.objects.find? (constant? d) with
    | some entry =>
        have notFresh : ¬∀ t ∈ file.objects.map Prod.snd, d.constants.any (Term.same t) = false := by
          rw [← fresh, found]
          exact Option.some_ne_none entry
        exact ⟨fun ⟨_, wrong⟩ => absurd wrong (refused _ _), fun ⟨checked, _⟩ => absurd checked.fresh notFresh⟩
    | none =>
        simp only [check_then_ok_iff, check_types_ok_iff, pure_ok_iff]
        constructor
        · rintro ⟨distinct, types, same⟩
          exact ⟨⟨named, distinct, fresh.mp found, types⟩, same⟩
        · rintro ⟨checked, same⟩
          exact ⟨checked.distinct, checked.types, same⟩
  · have differs : (file.domain.2 != d.name) = true := by simp [named]
    unfold check
    rw [differs]
    exact ⟨fun wrong => absurd wrong (refused _ _), fun ⟨checked, _⟩ => absurd checked.domain named⟩

end Source.ProblemFile

end Replan
