import Mathlib.Data.List.Forall2
import Replan.Proofs.Source.Declarations

set_option autoImplicit false

namespace Replan

open Source

variable {R : Type}

namespace Term

def KeepsType (t u : Term) : Prop := u.name = t.name ∧ (u.kind = t.kind ∨ t.kind = none ∧ u.kind = some "object")

theorem spelled_keeps (anyTyped : Bool) (t : Term) : KeepsType t (spelled anyTyped t) := by
  rw [spelled]
  split
  · refine ⟨rfl, ?_⟩
    cases kind : t.kind with
    | none => exact .inr ⟨rfl, rfl⟩
    | some k => exact .inl rfl
  · exact ⟨rfl, .inl rfl⟩

theorem spell_out_keeps (ts : List Term) : List.Forall₂ KeepsType ts (spellOut ts) := by
  rw [spellOut, List.forall₂_map_right_iff]
  exact List.forall₂_same.mpr fun t _ => spelled_keeps _ t

theorem spell_out_same (ts : List Term) : sameList ts (spellOut ts) = true := by
  rw [sameList, spell_out_names]
  exact beq_self_eq_true _

end Term

theorem forall_two_append {α β : Type} {r : α → β → Prop} {xs xs' : List α} {ys ys' : List β} (first : List.Forall₂ r xs ys)
    (second : List.Forall₂ r xs' ys') : List.Forall₂ r (xs ++ xs') (ys ++ ys') := by
  induction first with
  | nil => exact second
  | cons one _ ih => exact .cons one ih

theorem forall_two_parts {α β γ : Type} {r : β → γ → Prop} (f : α → List β) (g : α → List γ) (xs : List α)
    (each : ∀ x ∈ xs, List.Forall₂ r (f x) (g x)) : List.Forall₂ r (xs.flatMap f) (xs.flatMap g) := by
  induction xs with
  | nil => exact .nil
  | cons x xs ih =>
      rw [List.flatMap_cons, List.flatMap_cons]
      exact forall_two_append (each x List.mem_cons_self) (ih fun y member => each y (List.mem_cons_of_mem x member))

theorem Atom.same_self (a : Atom) : a.same a = true := beq_self_eq_true _

variable [Number R] {finite : R → Prop}

theorem Number.unsigned_equal (x : R) (equal : Number.eq x x = true) : Number.eq x (Number.unsigned x) = true := by
  rw [Number.unsigned]
  split
  · exact ‹_›
  · exact equal

namespace Query

omit [Number R] in
theorem expression_numbers {licence : RequirementSet → Prop} (q : Query R) (numeric : q.IsExpression licence fun _ => True)
    (known : ∀ x ∈ q.numbers, finite x) : q.IsExpression licence finite := by
  induction q with
  | constant x => exact known x (List.mem_singleton_self x)
  | fluent a => exact numeric
  | arithmetic op left right leftIH rightIH =>
      rw [numbers, List.forall_mem_append] at known
      exact ⟨leftIH numeric.1 known.1, rightIH numeric.2 known.2⟩
  | _ => cases numeric

omit [Number R] in
theorem forall_mem_numbers (qs : List (Query R)) :
    (∀ x ∈ numbersList qs, finite x) ↔ ∀ q ∈ qs, ∀ x ∈ q.numbers, finite x := by
  rw [numbers_list]
  simp only [List.mem_flatMap]
  exact ⟨fun all q member x inside => all x ⟨q, member, inside⟩, fun all x ⟨q, member, inside⟩ => all q member x inside⟩

omit [Number R] in
theorem legible_numbers {licence : RequirementSet → Prop} (q : Query R) (legible : q.Legible licence fun _ => True)
    (known : ∀ x ∈ q.numbers, finite x) : q.Legible licence finite := by
  induction q with
  | always => trivial
  | fact a => exact legible
  | comparison op left right _ _ =>
      rw [numbers, List.forall_mem_append] at known
      exact ⟨expression_numbers left legible.1 known.1, expression_numbers right legible.2 known.2⟩
  | conj parts ih =>
      rw [numbers, forall_mem_numbers] at known
      rw [Legible, legible_list] at legible ⊢
      exact ⟨legible.1, fun q member => ih q member (legible.2 q member) (known q member)⟩
  | disj parts ih =>
      rw [numbers, forall_mem_numbers] at known
      rw [Legible, legible_list] at legible ⊢
      exact ⟨legible.1, fun q member => ih q member (legible.2 q member) (known q member)⟩
  | neg body ih => exact ih legible known
  | imply premise conclusion first second =>
      rw [numbers, List.forall_mem_append] at known
      exact ⟨legible.1, first legible.2.1 known.1, second legible.2.2 known.2⟩
  | forAll vars body ih => exact ⟨legible.1, legible.2.1, ih legible.2.2 known⟩
  | forSome vars body ih => exact ⟨legible.1, legible.2.1, ih legible.2.2 known⟩
  | _ => cases legible

theorem same_list_as_read (qs : List (Query R)) (each : ∀ q ∈ qs, q.same q.asRead = true) :
    sameList qs (asReadList qs) = true := by
  induction qs with
  | nil => rfl
  | cons q qs ih =>
      rw [asReadList, sameList, each q List.mem_cons_self, ih fun p member => each p (List.mem_cons_of_mem q member)]
      rfl

theorem same_as_read (equal : ∀ x : R, finite x → Number.eq x x = true) (q : Query R)
    (known : ∀ x ∈ q.numbers, finite x) : q.same q.asRead = true := by
  induction q with
  | always => rfl
  | fact a => exact a.same_self
  | fluent a => exact a.same_self
  | constant x => exact Number.unsigned_equal x (equal x (known x (List.mem_singleton_self x)))
  | arithmetic op left right leftIH rightIH =>
      rw [numbers, List.forall_mem_append] at known
      rw [asRead, same, leftIH known.1, rightIH known.2, beq_self_eq_true]
      rfl
  | comparison op left right leftIH rightIH =>
      rw [numbers, List.forall_mem_append] at known
      rw [asRead, same, leftIH known.1, rightIH known.2, beq_self_eq_true]
      rfl
  | conj parts ih =>
      rw [numbers, forall_mem_numbers] at known
      exact same_list_as_read parts fun q member => ih q member (known q member)
  | disj parts ih =>
      rw [numbers, forall_mem_numbers] at known
      exact same_list_as_read parts fun q member => ih q member (known q member)
  | neg body ih => exact ih known
  | imply premise conclusion first second =>
      rw [numbers, List.forall_mem_append] at known
      rw [asRead, same, first known.1, second known.2]
      rfl
  | forAll vars body ih =>
      rw [asRead, same, Term.spell_out_same, ih known]
      rfl
  | forSome vars body ih =>
      rw [asRead, same, Term.spell_out_same, ih known]
      rfl

theorem bound_list_as_read (qs : List (Query R)) (each : ∀ q ∈ qs, List.Forall₂ Term.KeepsType q.bound q.asRead.bound) :
    List.Forall₂ Term.KeepsType (boundList qs) (boundList (asReadList qs)) := by
  rw [bound_list, bound_list, as_read_list, List.flatMap_map]
  exact forall_two_parts _ _ qs each

theorem bound_as_read (q : Query R) : List.Forall₂ Term.KeepsType q.bound q.asRead.bound := by
  induction q with
  | arithmetic op left right leftIH rightIH => exact forall_two_append leftIH rightIH
  | comparison op left right leftIH rightIH => exact forall_two_append leftIH rightIH
  | conj parts ih => exact bound_list_as_read parts ih
  | disj parts ih => exact bound_list_as_read parts ih
  | neg body ih => exact ih
  | imply premise conclusion first second => exact forall_two_append first second
  | forAll vars body ih => exact forall_two_append (Term.spell_out_keeps vars) ih
  | forSome vars body ih => exact forall_two_append (Term.spell_out_keeps vars) ih
  | _ => exact .nil

end Query

namespace Effect

omit [Number R] in
theorem forall_mem_numbers (es : List (Effect R)) :
    (∀ x ∈ numbersList es, finite x) ↔ ∀ e ∈ es, ∀ x ∈ e.numbers, finite x := by
  rw [numbers_list]
  simp only [List.mem_flatMap]
  exact ⟨fun all e member x inside => all x ⟨e, member, inside⟩, fun all x ⟨e, member, inside⟩ => all e member x inside⟩

omit [Number R] in
theorem forall_mem_outcomes (outcomes : List (R × Effect R)) : (∀ x ∈ numbersOutcomes outcomes, finite x) ↔
    ∀ outcome ∈ outcomes, finite outcome.1 ∧ ∀ x ∈ outcome.2.numbers, finite x := by
  induction outcomes with
  | nil => simp [numbersOutcomes]
  | cons outcome outcomes ih =>
      rw [numbersOutcomes, List.forall_mem_append, List.forall_mem_cons, ih, List.forall_mem_cons]

theorem legible_numbers {licence : RequirementSet → Prop} (e : Effect R) (legible : e.Legible licence fun _ => True)
    (known : ∀ x ∈ e.numbers, finite x) : e.Legible licence finite := by
  induction e with
  | conj parts ih =>
      rw [numbers, forall_mem_numbers] at known
      rw [Legible, legible_list] at legible ⊢
      exact ⟨legible.1, fun e member => ih e member (legible.2 e member) (known e member)⟩
  | forAll vars body ih => exact ⟨legible.1, legible.2.1, ih legible.2.2 known⟩
  | when condition body ih =>
      rw [numbers, List.forall_mem_append] at known
      exact ⟨legible.1, condition.legible_numbers legible.2.1 known.1, ih legible.2.2 known.2⟩
  | assign op fluent value => exact ⟨legible.1, legible.2.1, value.expression_numbers legible.2.2 known⟩
  | probabilistic outcomes ih =>
      rw [numbers, forall_mem_outcomes] at known
      rw [Legible, legible_outcomes] at legible ⊢
      refine ⟨legible.1, legible.2.1, legible.2.2.1, fun outcome member => ⟨(known outcome member).1, ?_⟩⟩
      exact ih outcome member (legible.2.2.2 outcome member).2 (known outcome member).2
  | _ => exact legible

theorem same_list_as_read (es : List (Effect R)) (each : ∀ e ∈ es, e.same e.asRead = true) :
    sameList es (asReadList es) = true := by
  induction es with
  | nil => rfl
  | cons e es ih =>
      rw [asReadList, sameList, each e List.mem_cons_self, ih fun d member => each d (List.mem_cons_of_mem e member)]
      rfl

theorem same_outcomes_as_read (outcomes : List (R × Effect R))
    (each : ∀ outcome ∈ outcomes, Number.eq outcome.1 outcome.1 = true ∧ outcome.2.same outcome.2.asRead = true) :
    sameOutcomes outcomes (asReadOutcomes outcomes) = true := by
  induction outcomes with
  | nil => rfl
  | cons outcome outcomes ih =>
      obtain ⟨first, others⟩ := List.forall_mem_cons.mp each
      rw [asReadOutcomes, sameOutcomes, Number.unsigned_equal _ first.1, first.2, ih others]
      rfl

theorem same_as_read (equal : ∀ x : R, finite x → Number.eq x x = true) (e : Effect R)
    (known : ∀ x ∈ e.numbers, finite x) : e.same e.asRead = true := by
  induction e with
  | skip => rfl
  | add fact => exact fact.same_self
  | delete fact => exact fact.same_self
  | conj parts ih =>
      rw [numbers, forall_mem_numbers] at known
      exact same_list_as_read parts fun e member => ih e member (known e member)
  | forAll vars body ih =>
      rw [asRead, same, Term.spell_out_same, ih known]
      rfl
  | when condition body ih =>
      rw [numbers, List.forall_mem_append] at known
      rw [asRead, same, condition.same_as_read equal known.1, ih known.2]
      rfl
  | assign op fluent value =>
      rw [asRead, same, fluent.same_self, value.same_as_read equal known, beq_self_eq_true]
      rfl
  | probabilistic outcomes ih =>
      rw [numbers, forall_mem_outcomes] at known
      exact same_outcomes_as_read outcomes fun outcome member =>
        ⟨equal _ (known outcome member).1, ih outcome member (known outcome member).2⟩

theorem bound_as_read (e : Effect R) : List.Forall₂ Term.KeepsType e.bound e.asRead.bound := by
  induction e with
  | conj parts ih =>
      rw [asRead, bound, bound, bound_list, bound_list, as_read_list, List.flatMap_map]
      exact forall_two_parts _ _ parts ih
  | forAll vars body ih => exact forall_two_append (Term.spell_out_keeps vars) ih
  | when condition body ih => exact forall_two_append condition.bound_as_read ih
  | assign op fluent value => exact value.bound_as_read
  | probabilistic outcomes ih =>
      rw [asRead, bound, bound, bound_outcomes, bound_outcomes, as_read_outcomes, List.flatMap_map]
      exact forall_two_parts _ _ outcomes ih
  | _ => exact .nil

end Effect

end Replan
