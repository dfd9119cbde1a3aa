import Replan.Domain
import Replan.Proofs.Source.Grammar

set_option autoImplicit false

namespace Replan

open Source

variable {R : Type}

namespace Atom

def Declaration (licence : RequirementSet → Prop) (a : Atom) : Prop :=
  IsName a.name ∧ Declares IsVariable licence a.args

def asRead (a : Atom) : Atom := { a with args := Term.spellOut a.args }

end Atom

namespace Action

variable [Number R]

structure Legible (licence : RequirementSet → Prop) (number : R → Prop) (a : Action R) : Prop where
  name : IsName a.name
  parameters : Declares IsVariable licence a.parameters
  precondition : a.precondition.isEmpty = false → a.precondition.Legible licence number
  effect : a.effect.Legible licence number

def asRead (a : Action R) : Action R where
  name := a.name
  parameters := Term.spellOut a.parameters
  precondition := if a.precondition.isEmpty then .always else a.precondition.asRead
  effect := a.effect.asRead
  origin := none

end Action

namespace Domain

variable [Number R]

structure Legible (licence : RequirementSet → Prop) (number : R → Prop) (d : Domain R) : Prop where
  name : IsName d.name
  requirements : RequirementSet.ofList d.requirements = d.requirements
  types : ∀ pair ∈ d.types.parents, IsName pair.1 ∧ IsName pair.2 ∧ licence [.typing]
  constants : Declares IsName licence d.constants
  predicates : ∀ a ∈ d.predicates, a.Declaration licence
  functions : ∀ f ∈ d.functions, f.Declaration licence ∧ licence fluentRequirements
  actions : ∀ a ∈ d.actions, a.Legible licence number

def Known (types : Hierarchy) (ts : List Term) : Prop := ∀ t ∈ ts, ∀ kind ∈ t.kind, types.contains kind = true

omit [Number R] in
structure Declared (d : Domain R) : Prop where
  distinctTypes : (d.types.parents.map Prod.fst).Nodup
  types : Known d.types d.types.declarations
  distinctConstants : (d.constants.map Term.name).Nodup
  constants : Known d.types d.constants
  distinctPredicates : (d.predicates.map Atom.name).Nodup
  parameters : ∀ a ∈ d.actions, Known d.types a.parameters

def asRead (d : Domain R) : Domain R :=
  { d with
    constants := Term.spellOut d.constants
    predicates := d.predicates.map Atom.asRead
    functions := d.functions.map Atom.asRead
    actions := d.actions.map Action.asRead }

omit [Number R] in
theorem known_spelled (types : Hierarchy) (ts : List Term) (known : Known types ts) : Known types (Term.spellOut ts) := by
  intro t member kind typed
  obtain ⟨u, listed, rfl⟩ := List.mem_map.mp member
  rw [Term.spelled] at typed
  split at typed
  · cases typed
    cases given : u.kind with
    | none => rfl
    | some k => exact known u listed k given
  · exact known u listed kind typed

end Domain

end Replan
