import Replan.Proofs.Determinize.Variant
import Replan.Proofs.Run

set_option autoImplicit false

namespace Replan

open Results

variable {R : Type} [Number R]

theorem determinize_keeps (t t' : Determinizer R) (p p' : Problem R) (completed : t.determinize p = .ok (p', t')) :
    t'.versions = t.versions := by
  obtain ⟨versions, current, made⟩ := (map_ok_iff _ _ _).mp completed
  cases made
  rfl

-- The states behind `s` when each step has the outcome that it was traced to.
inductive Unfolds (p : Problem R) : State R → List (OutcomeTrace R) → List (State R) → Prop
  | done (s : State R) : Unfolds p s [] []
  | step (s s' : State R) (o : OutcomeTrace R) (g : Action R) (os : List (R × Effect R)) (e : Effect R)
      (rest : List (OutcomeTrace R)) (states : List (State R)) : p.outcomesIn s o.base = .ok (g, os) →
      (Effect.numbered os)[o.outcome]? = some (o.probability, e) → p.successor s o.base g e = .ok s' →
      Unfolds p s' rest states → Unfolds p s (o :: rest) (s' :: states)

theorem base_step (p : Problem R) (distinct : (p.domain.actions.map Action.name).Nodup) (a b : Action R)
    (known : a ∈ p.domain.actions) (became : a.preprocess = .ok b) (i : Nat) (outcome : R × Effect R)
    (found : b.outcomes[i]? = some outcome) (args : List String) (arity : args.length = b.parameters.length)
    (s : State R) (holds : (b.precondition.bind (b.assignment args)).holds s = true) :
    ∃ g os s', p.outcomesIn s ⟨b.name, args⟩ = .ok (g, os) ∧
      (Effect.numbered os)[i]? = some (outcome.1, outcome.2.bind (b.assignment args)) ∧
      p.successor s ⟨b.name, args⟩ g (outcome.2.bind (b.assignment args)) = .ok s' ∧
      (outcome.2.gathered s [b.assignment args]).Lead s s' := by
  obtain ⟨name, parameters, precondition⟩ := Action.preprocess_keeps a b became
  have assignment := Action.preprocess_assignment a b became args
  obtain ⟨g, os, grounded, expanded, numbering, -⟩ := Action.ground_expand a b became args (by rw [arity, parameters])
  obtain ⟨-, rfl⟩ := (ground_ok_iff a args g).mp grounded
  rw [assignment] at numbering holds ⊢
  rw [precondition] at holds
  have deterministic := Action.preprocess_deterministic a b became outcome (List.mem_of_getElem? found)
  obtain ⟨s', applied⟩ := instance_applies { a with effect := outcome.2 } (a.assignment args) deterministic s
    (some p.goal) holds
  obtain ⟨-, leads⟩ := instance_applied { a with effect := outcome.2 } (a.assignment args) deterministic s s'
    (some p.goal) applied
  refine ⟨a.bind (a.assignment args), os, s', ?_, ?_, (successor_ok_iff p s _ _ _ s').mpr applied, leads⟩
  · refine (outcomes_in_ok_iff p s ⟨b.name, args⟩ _ os).mpr ⟨?_, holds, expanded⟩
    refine (problem_ground_ok_iff p _ _).mpr ⟨a, ?_, grounded⟩
    rw [name]
    exact action_by_name _ distinct a known
  · rw [numbering, List.getElem?_map, found]
    rfl

end Replan
