import Replan.Proofs.Agreement
import Replan.Proofs.Number.Zeros
import Replan.Proofs.Source.DomainText
import Replan.Proofs.Source.ReadDomains
import Replan.Proofs.Source.Unchanged

set_option autoImplicit false

namespace Replan

open Results Source

variable {R : Type}

theorem Substitution.lookup_distinct (σ : Substitution) (distinct : (σ.map Prod.fst).Nodup) (pair : String × String)
    (member : pair ∈ σ) : σ.lookup? pair.1 = some pair.2 := by
  induction σ with
  | nil => cases member
  | cons first rest ih =>
      rw [List.map_cons, List.nodup_cons] at distinct
      rw [lookup_cons]
      rcases List.mem_cons.mp member with rfl | later
      · rw [if_pos rfl]
      · have other : first.1 ≠ pair.1 := by
          intro same
          rw [same] at distinct
          exact distinct.1 (List.mem_map_of_mem later)
        rw [if_neg other, ih distinct.2 later]

theorem Hierarchy.same_self (h : Hierarchy) (distinct : (h.parents.map Prod.fst).Nodup) : h.same h = true := by
  rw [same, beq_self_eq_true, Bool.true_and, List.all_eq_true]
  intro pair member
  rw [parent?, Substitution.lookup_distinct _ distinct pair member, beq_self_eq_true]

namespace Domain

def numbers (d : Domain R) : List R := d.actions.flatMap fun a => a.precondition.numbers ++ a.effect.numbers

def declaredTerms (d : Domain R) : List Term :=
  d.constants ++ d.predicates.flatMap Atom.args ++ d.functions.flatMap Atom.args ++
    d.actions.flatMap fun a => a.parameters ++ (a.precondition.bound ++ a.effect.bound)

variable [Number R] {finite : R → Prop}

theorem legible_numbers {licence : RequirementSet → Prop} (d : Domain R) (legible : d.Legible licence fun _ => True)
    (known : ∀ x ∈ d.numbers, finite x) : d.Legible licence finite where
  name := legible.name
  requirements := legible.requirements
  types := legible.types
  constants := legible.constants
  predicates := legible.predicates
  functions := legible.functions
  actions a member := by
    obtain ⟨name, parameters, precondition, effect⟩ := legible.actions a member
    have inside (x : R) (used : x ∈ a.precondition.numbers ++ a.effect.numbers) : finite x :=
      known x (List.mem_flatMap.mpr ⟨a, member, used⟩)
    rw [List.forall_mem_append] at inside
    exact ⟨name, parameters, fun written => a.precondition.legible_numbers (precondition written) inside.1,
      a.effect.legible_numbers effect inside.2⟩

theorem same_lists {α : Type} (same : α → α → Bool) (f : α → α) (xs : List α) (each : ∀ x ∈ xs, same x (f x) = true) :
    sameList same xs (xs.map f) = true := by
  induction xs with
  | nil => rfl
  | cons x xs ih =>
      rw [List.map_cons, sameList, each x List.mem_cons_self, ih fun y member => each y (List.mem_cons_of_mem x member)]
      rfl

theorem same_action (equal : ∀ x : R, finite x → Number.eq x x = true) (a : Action R)
    (known : ∀ x ∈ a.precondition.numbers ++ a.effect.numbers, finite x)
    (written : a.precondition.isEmpty = true → a.precondition = .always) (origin : a.origin = none) :
    a.same a.asRead = true := by
  rw [List.forall_mem_append] at known
  have precondition : a.precondition.same a.asRead.precondition = true := by
    rw [Action.asRead]
    split
    · next empty =>
        rw [written empty]
        rfl
    · exact a.precondition.same_as_read equal known.1
  rw [Action.same, precondition, origin, Action.asRead]
  simp only [Term.spell_out_same, a.effect.same_as_read equal known.2, beq_self_eq_true]
  rfl

theorem same_as_read (equal : ∀ x : R, finite x → Number.eq x x = true) (d : Domain R) (declared : d.Declared)
    (known : ∀ x ∈ d.numbers, finite x)
    (written : ∀ a ∈ d.actions, a.precondition.isEmpty = true → a.precondition = .always)
    (origins : ∀ a ∈ d.actions, a.origin = none) : d.same d.asRead = true := by
  have terms : sameList Term.same d.constants (Term.spellOut d.constants) = true := by
    refine same_lists Term.same _ d.constants fun t _ => ?_
    rw [Term.same, (Term.spelled_keeps _ t).1]
    exact beq_self_eq_true _
  have atoms (as : List Atom) : sameList Atom.same as (as.map Atom.asRead) = true := by
    refine same_lists Atom.same Atom.asRead as fun a _ => ?_
    rw [Atom.same, Atom.ground, Atom.ground, Atom.asRead, Term.spell_out_names]
    exact beq_self_eq_true _
  have actions : sameList Action.same d.actions (d.actions.map Action.asRead) = true := by
    refine same_lists Action.same Action.asRead d.actions fun a member => ?_
    refine same_action equal a (fun x used => ?_) (written a member) (origins a member)
    exact known x (List.mem_flatMap.mpr ⟨a, member, used⟩)
  rw [same, asRead]
  simp only [terms, atoms, actions, d.types.same_self declared.distinctTypes, beq_self_eq_true]
  rfl

theorem types_as_read (d : Domain R)
    (written : ∀ a ∈ d.actions, a.precondition.isEmpty = true → a.precondition = .always) :
    List.Forall₂ Term.KeepsType d.declaredTerms d.asRead.declaredTerms := by
  have atoms (as : List Atom) : List.Forall₂ Term.KeepsType (as.flatMap Atom.args) ((as.map Atom.asRead).flatMap Atom.args) := by
    rw [List.flatMap_map]
    exact forall_two_parts _ _ as fun a _ => Term.spell_out_keeps a.args
  refine forall_two_append (forall_two_append (forall_two_append (Term.spell_out_keeps _) (atoms _)) (atoms _)) ?_
  rw [asRead, List.flatMap_map]
  refine forall_two_parts _ _ d.actions fun a member => ?_
  refine forall_two_append (Term.spell_out_keeps _) (forall_two_append ?_ a.effect.bound_as_read)
  rw [Action.asRead]
  split
  · next empty =>
      rw [written a member empty]
      exact .nil
  · exact a.precondition.bound_as_read

end Domain

/-- The text of a domain is read back as the same domain, where printing a finite number and reading it back are
inverse. -/
theorem domain_text_round_trip [Number R] [Number.ZerosAlike R] {finite : R → Prop} (readable : Readable finite)
    (text : String) (d : Domain R) (parsed : Domain.parse text = .ok d) (known : ∀ x ∈ d.numbers, finite x)
    (written : ∀ a ∈ d.actions, a.precondition.isEmpty = true → a.precondition = .always) :
    ∃ e, Domain.parse d.text = .ok e ∧ d.same e = true ∧ e.types = d.types ∧
      List.Forall₂ Term.KeepsType d.declaredTerms e.declaredTerms := by
  obtain ⟨legible, declared, origins⟩ := Domain.parsed_legible text d parsed
  exact ⟨d.asRead, Domain.parse_text readable d (d.legible_numbers legible known) declared,
    d.same_as_read readable.equal declared known written origins, rfl, d.types_as_read written⟩

theorem half_readable : Readable fun x : Float => x = Number.ofDecimal 5 1 where
  reads := by
    rintro _ rfl - G rest ended
    have text : (Number.text (Number.ofDecimal 5 1 : Float)).toList = Numeral.text ⟨false, ['0'], some ['5']⟩ := by
      decide +kernel
    obtain ⟨stops, noSlash⟩ := ended_number rest ended
    rw [text]
    have digits : Numeral.Digits ⟨false, ['0'], some ['5']⟩ := ⟨by simp, by simp, by simp⟩
    exact number_reads _ digits rest stops noSlash
  equal := by
    rintro _ rfl
    rfl

def tossText : String :=
  "(define (domain coins) (:requirements :typing :probabilistic-effects) (:types coin) (:constants cent - coin dime)
    (:predicates (heads ?c - coin) (done)) (:action toss :parameters (?c - coin)
    :precondition (not (heads ?c)) :effect (probabilistic 0.5 (heads ?c))))"

theorem toss_parses : ∃ d : Domain Float, Domain.parse tossText = .ok d ∧ (∀ x ∈ d.numbers, x = Number.ofDecimal 5 1) ∧
    ∀ a ∈ d.actions, a.precondition.isEmpty = true → a.precondition = .always := by
  have run : (do
      let d ← Domain.parse (R := Float) tossText
      pure (decide (∀ x ∈ d.numbers, x = Number.ofDecimal 5 1) && d.actions.all fun a =>
        !a.precondition.isEmpty)).toOption = some true := by
    -- The kernel takes the letters of a literal, which is faster than reading them off its bytes.
    rw [Domain.parse, Cursor.ofText, tossText, String.toList_ofList]
    decide +kernel
  obtain ⟨d, parsed, checked⟩ := (bind_ok_iff _ _ _).mp ((to_option_iff _ _).mp run)
  rw [pure_ok_iff, Bool.and_eq_true, decide_eq_true_eq, List.all_eq_true] at checked
  refine ⟨d, parsed, checked.1, fun a member empty => ?_⟩
  have written := checked.2 a member
  rw [empty] at written
  cases written

theorem domain_text_round_trip_toss : ∃ d : Domain Float, Domain.parse tossText = .ok d ∧
    (∀ x ∈ d.numbers, x = Number.ofDecimal 5 1) ∧
    (∀ a ∈ d.actions, a.precondition.isEmpty = true → a.precondition = .always) ∧
    ∃ e, Domain.parse d.text = .ok e ∧ d.same e = true ∧ e.types = d.types ∧
      List.Forall₂ Term.KeepsType d.declaredTerms e.declaredTerms := by
  obtain ⟨d, parsed, known, written⟩ := toss_parses
  exact ⟨d, parsed, known, written, domain_text_round_trip half_readable tossText d parsed known written⟩

end Replan
