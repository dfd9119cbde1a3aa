import Replan.Proofs.Grounding
import Replan.Proofs.Source.DomainRoundTrip
import Replan.Proofs.Source.Tautologies

set_option autoImplicit false

namespace Replan

open Results Source

section ReadBack

variable {R : Type} [Number R]

theorem Domain.parsed_reads_back [Number.ZerosAlike R] {finite : R → Prop} (readable : Readable finite) (text : String)
    (d : Domain R) (parsed : Domain.parse text = .ok d) (known : ∀ x ∈ d.numbers, finite x) :
    Domain.parse d.text = .ok d.asRead := by
  obtain ⟨legible, declared, -⟩ := Domain.parsed_legible text d parsed
  exact Domain.parse_text readable d (d.legible_numbers legible known) declared

theorem Action.ground_as_read (a : Action R) (args : List String) (g : Action R) (grounded : a.ground args = .ok g) :
    ∃ g', a.asRead.ground args = .ok g' ∧ g'.precondition = a.asRead.precondition.bind (a.assignment args) := by
  obtain ⟨counted, -⟩ := (ground_ok_iff a args g).mp grounded
  have names : a.asRead.parameters.map Term.name = a.parameters.map Term.name := Term.spell_out_names a.parameters
  have assigned : a.asRead.assignment args = a.assignment args := by rw [assignment, assignment, names]
  have same : args.length = a.asRead.parameters.length := by
    rw [counted, ← List.length_map Term.name, ← names, List.length_map]
  exact ⟨_, (ground_ok_iff a.asRead args _).mpr ⟨same, rfl⟩, congrArg a.asRead.precondition.bind assigned⟩

-- Folding keeps what is compared: by the laws of arithmetic, or because nothing is computed from a fluent.
def Query.Foldable (q : Query R) : Prop := Number.Lawful R ∨ q.Within (Vocabulary.plainOperands R)

theorem Query.parsed_faithful {licence : RequirementSet → Prop} {number : R → Prop} (q : Query R) (s : State R)
    (legible : q.Legible licence number) (foldable : q.Foldable) (answerable : q.Answerable s.world) : q.Faithful s := by
  rcases foldable with lawful | plain
  · exact q.legible_faithful (Vocabulary.numericOperands R) (fun q numeric => (simplify_numeric q numeric).2) s legible
      (q.legible_numeric legible) answerable
  · exact q.legible_faithful (Vocabulary.plainOperands R) plain_same s legible plain answerable

theorem Action.applicable_as_read {licence : RequirementSet → Prop} (a : Action R)
    (legible : a.precondition.Legible licence fun _ => True) (args : List String) (g : Action R)
    (grounded : a.ground args = .ok g) : ∃ g', a.asRead.ground args = .ok g' ∧ ∀ s : State R,
      (Number.Lawful R ∨ a.precondition.isEmpty = true → g.isApplicable s = true → g'.isApplicable s = true) ∧
      (Number.Lawful R ∨ a.precondition.isEmpty = true ∧ a.precondition.Foldable → a.precondition.Answerable s.world →
        g'.isApplicable s = g.isApplicable s) := by
  obtain ⟨g', regrounded, written⟩ := a.ground_as_read args g grounded
  obtain ⟨-, rfl⟩ := (ground_ok_iff a args g).mp grounded
  refine ⟨g', regrounded, fun s => ?_⟩
  have original : (a.bind (a.assignment args)).isApplicable s =
      (a.precondition.evalUnder s [a.assignment args]).asBool := a.precondition.holds_bind s _
  rw [original, isApplicable, written, Query.holds_bind, asRead]
  by_cases empty : a.precondition.isEmpty = true
  · rw [if_pos empty]
    refine ⟨fun _ _ => rfl, fun folds answerable => ?_⟩
    have faithful := a.precondition.parsed_faithful s legible (folds.elim .inl And.right) answerable
    exact (a.precondition.empty_holds s faithful empty _).symm
  · rw [if_neg empty]
    refine ⟨fun lawful applicable => ?_, fun lawful _ => ?_⟩
    · have := lawful.resolve_right empty
      rw [Query.eval_as_read]
      exact applicable
    · have := lawful.resolve_right fun both => empty both.1
      rw [Query.eval_as_read]

end ReadBack

/-- A precondition that is found trivially true holds, unless it asks for an object where there is none. Otherwise it
may be left out of the text. -/
theorem empty_preconditions_hold (R : Type) [Number R] :
    (∀ (q : Query R) (s : State R), q.Parsed → q.Foldable → q.Answerable s.world → q.isEmpty = true →
      q.holds s = true) ∧
    (∀ (vars : List Term) (body : Query R) (s : State R), body.isEmpty = true → s.world.bindings vars = [] →
      (Query.forSome vars body).isEmpty = true ∧ (Query.forSome vars body).holds s = false) ∧
    ∀ [Number.ZerosAlike R] (finite : R → Prop), Readable finite →
      ∀ (text : String) (d : Domain R), Domain.parse text = .ok d → (∀ x ∈ d.numbers, finite x) →
        ∃ e, Domain.parse d.text = .ok e ∧ List.Forall₂ (fun a b => ∀ args g, a.ground args = .ok g →
          ∃ g', b.ground args = .ok g' ∧ ∀ s : State R,
            (Number.Lawful R ∨ a.precondition.isEmpty = true → g.isApplicable s = true → g'.isApplicable s = true) ∧
            (Number.Lawful R ∨ a.precondition.isEmpty = true ∧ a.precondition.Foldable →
              a.precondition.Answerable s.world → g'.isApplicable s = g.isApplicable s)) d.actions e.actions := by
  refine ⟨fun q s parsed foldable answerable empty => ?_, fun vars body s => Query.unanswerable_fails vars body s,
    fun finite readable text d parsed known => ⟨d.asRead, d.parsed_reads_back readable text parsed known, ?_⟩⟩
  · obtain ⟨licence, legible⟩ := q.parsed_legible parsed
    exact q.empty_holds s (q.parsed_faithful s legible foldable answerable) empty []
  · rw [Domain.asRead, List.forall₂_map_right_iff, List.forall₂_same]
    exact fun a member args g grounded =>
      a.applicable_as_read (Domain.parsed_preconditions text d parsed a member) args g grounded

def anyDoor : Query Float := .forSome [⟨"?d", some "door"⟩] .always

def isAnyDoor : Query Float → Bool
  | .forSome [⟨name, kind⟩] .always => name == "?d" && kind == some "door"
  | _ => false

theorem is_any_door (q : Query Float) (found : isAnyDoor q = true) : q = anyDoor := by
  unfold isAnyDoor at found
  split at found
  · rw [Bool.and_eq_true, beq_iff_eq, beq_iff_eq] at found
    rw [found.1, found.2]
    rfl
  · cases found

def readsAs (requirements : RequirementSet) (text : String) (test : Query Float → Bool) : Bool :=
  match Source.query (.ofText text false requirements) with
  | .done q _ => test q
  | _ => false

theorem reads_as_parsed (requirements : RequirementSet) (text : String) (test : Query Float → Bool)
    (read : readsAs requirements text test = true) : ∃ q : Query Float, q.Parsed ∧ test q = true := by
  unfold readsAs at read
  split at read
  · next q next done => exact ⟨q, ⟨_, next, done⟩, read⟩
  · cases read

def hallsText : String :=
  "(define (domain halls) (:requirements :typing :existential-preconditions) (:types door) (:predicates (inside))
    (:action enter :precondition (exists (?d - door) (and)) :effect (inside)))"

def frontHall : State Float :=
  ⟨[], [], Number.zero, Number.zero, ⟨[⟨"front", some "door"⟩], ⟨[("door", "object")]⟩⟩⟩

def doorlessHall : State Float := { frontHall with world := Universe.empty }

theorem nothing_readable : Readable fun _ : Float => False := ⟨fun _ => False.elim, fun _ => False.elim⟩

theorem any_door_parsed : anyDoor.Parsed := by
  have read : readsAs [.typing, .existentialPreconditions] "(exists (?d - door) (and))" isAnyDoor = true := by
    decide +kernel
  obtain ⟨q, parsed, found⟩ := reads_as_parsed _ _ _ read
  exact is_any_door q found ▸ parsed

theorem halls_parse : ∃ (d : Domain Float) (a : Action Float), Domain.parse hallsText = .ok d ∧ d.numbers = [] ∧
    d.actions = [a] ∧ a.parameters = [] ∧ a.precondition = anyDoor := by
  have run : ((Domain.parse (R := Float) hallsText).map fun d =>
      (d.numbers.isEmpty, d.actions.map fun a => (a.parameters, isAnyDoor a.precondition))).toOption =
        some (true, [([], true)]) := by
    rw [Domain.parse, Cursor.ofText, hallsText, String.toList_ofList]
    decide +kernel
  obtain ⟨d, parsed, found⟩ := (map_ok_iff _ _ _).mp ((to_option_iff _ _).mp run)
  rw [Prod.mk.injEq, List.isEmpty_iff] at found
  obtain ⟨a, actions, known⟩ := List.map_eq_singleton_iff.mp found.2
  rw [Prod.mk.injEq] at known
  exact ⟨d, a, parsed, found.1, actions, known.1, is_any_door _ known.2⟩

theorem empty_preconditions_hold_front : anyDoor.isEmpty = true ∧ anyDoor.holds frontHall = true ∧
    anyDoor.holds doorlessHall = false ∧
    ∃ d e a b g g', Domain.parse hallsText = .ok d ∧ Domain.parse d.text = .ok e ∧ d.actions = [a] ∧ e.actions = [b] ∧
      a.ground [] = .ok g ∧ b.ground [] = .ok g' ∧ g'.isApplicable frontHall = g.isApplicable frontHall := by
  obtain ⟨hold, fail, print⟩ := empty_preconditions_hold Float
  have empty : anyDoor.isEmpty = true := rfl
  have someDoor : frontHall.world.bindings [⟨"?d", some "door"⟩] ≠ [] := by decide
  have noDoor : doorlessHall.world.bindings [⟨"?d", some "door"⟩] = [] := by decide
  have plain : anyDoor.Within (Vocabulary.plainOperands Float) := ⟨trivial, trivial⟩
  have answerable : anyDoor.Answerable frontHall.world := ⟨fun _ => someDoor, trivial⟩
  obtain ⟨d, a, parsed, unnumbered, only, unparametrised, waits⟩ := halls_parse
  obtain ⟨e, reparsed, each⟩ := print _ nothing_readable hallsText d parsed (by simp [unnumbered])
  rw [only] at each
  obtain ⟨b, others, related, nothing, same⟩ := List.forall₂_cons_left_iff.mp each
  rw [List.forall₂_nil_left_iff] at nothing
  have counted : ([] : List String).length = a.parameters.length := by rw [unparametrised]; rfl
  obtain ⟨g, grounded⟩ : ∃ g, a.ground [] = .ok g := ⟨_, (ground_ok_iff a [] _).mpr ⟨counted, rfl⟩⟩
  obtain ⟨g', regrounded, alike⟩ := related [] g grounded
  refine ⟨empty, hold anyDoor frontHall any_door_parsed (.inr plain) answerable empty,
    (fail _ .always doorlessHall rfl noDoor).2, d, e, a, b, g, g', parsed, reparsed, only, nothing ▸ same, grounded,
    regrounded, (alike frontHall).2 (.inr ?_) (waits ▸ answerable)⟩
  exact ⟨waits ▸ empty, .inr (waits ▸ plain)⟩

def unlimitedFuel : State Float :=
  { frontHall with fluents := [(⟨"fuel", []⟩, Number.one / Number.zero)] }

/-- They may fail where there is no door, and where nothing times the fuel is not zero. The domain that is read back
from the text of the halls lets the agent enter a hall without a door. -/
theorem empty_preconditions_may_fail :
    (anyDoor.Parsed ∧ anyDoor.isEmpty = true ∧ anyDoor.holds doorlessHall = false) ∧
    (∃ q : Query Float, q.Parsed ∧ q.isEmpty = true ∧ q.holds unlimitedFuel = false) ∧
    ∃ d e a b g g', Domain.parse hallsText = .ok d ∧ Domain.parse d.text = .ok e ∧ d.actions = [a] ∧ e.actions = [b] ∧
      a.ground [] = .ok g ∧ b.ground [] = .ok g' ∧ g.isApplicable doorlessHall = false ∧
      g'.isApplicable doorlessHall = true := by
  refine ⟨⟨any_door_parsed, rfl, by decide +kernel⟩, ?_, ?_⟩
  · have read : readsAs [.numericFluents] "(= (* 0 (fuel)) 0)" (fun q => q.isEmpty && !q.holds unlimitedFuel) = true := by
      decide +kernel
    obtain ⟨q, parsed, found⟩ := reads_as_parsed _ _ _ read
    rw [Bool.and_eq_true, Bool.not_eq_true'] at found
    exact ⟨q, parsed, found.1, found.2⟩
  · obtain ⟨d, a, parsed, unnumbered, only, unparametrised, waits⟩ := halls_parse
    have reparsed := d.parsed_reads_back nothing_readable hallsText parsed (by simp [unnumbered])
    have counted : ([] : List String).length = a.parameters.length := by rw [unparametrised]; rfl
    have grounded := (ground_ok_iff a [] _).mpr ⟨counted, rfl⟩
    obtain ⟨g', regrounded, written⟩ := a.ground_as_read [] _ grounded
    have closed : (a.bind (a.assignment [])).isApplicable doorlessHall = false := by
      rw [Action.isApplicable, Action.bind, Query.holds_bind, waits]
      rfl
    have opened : g'.isApplicable doorlessHall = true := by
      rw [Action.isApplicable, written, Action.asRead, waits]
      rfl
    have actions : d.asRead.actions = [a.asRead] := by rw [Domain.asRead, only]; rfl
    exact ⟨d, d.asRead, a, a.asRead, _, g', parsed, reparsed, only, actions, grounded, regrounded, closed, opened⟩

end Replan
