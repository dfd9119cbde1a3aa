import Replan.Proofs.Effect.Writes
import Replan.Proofs.Number.Exact
import Replan.Proofs.Simulator

set_option autoImplicit false

namespace Replan

open Results

variable {R : Type}

def State.factsOf (s : State R) (predicate : String) : List Ground :=
  s.facts.filter fun fact => fact.name == predicate

namespace Domain

def writable (d : Domain R) : Writable where
  facts name := ∃ a ∈ d.actions, name ∈ a.effect.modifiedPredicates
  fluents name := ∃ a ∈ d.actions, name ∈ a.effect.modifiedFunctions

theorem action_writes (d : Domain R) (a : Action R) (known : a ∈ d.actions) : a.effect.Writes d.writable :=
  (Effect.writes_iff d.writable a.effect).mpr
    ⟨fun _ modified => ⟨a, known, modified⟩, fun _ modified => ⟨a, known, modified⟩⟩

theorem static_unmodified (modified : List String) (declared : List Atom) (a : Atom)
    (static : a ∈ declared.filter fun a => !modified.contains a.name) : a.name ∉ modified := by
  have unmodified := (List.mem_filter.mp static).2
  rwa [Bool.not_eq_true', ← Bool.not_eq_true, List.contains_iff_mem] at unmodified

theorem static_predicate_unwritten (d : Domain R) (predicate : Atom) (static : predicate ∈ d.staticPredicates) :
    ¬d.writable.facts predicate.name := fun written =>
  static_unmodified _ d.predicates predicate static (List.mem_flatMap.mpr written)

theorem static_function_unwritten (d : Domain R) (function : Atom) (static : function ∈ d.staticFunctions) :
    ¬d.writable.fluents function.name := fun written =>
  static_unmodified _ d.functions function static (List.mem_flatMap.mpr written)

end Domain

variable [Number R]

structure State.Rewritten (w : Writable) (s s' : State R) : Prop where
  facts : ∀ predicate, ¬w.facts predicate → s'.factsOf predicate = s.factsOf predicate
  values : ∀ f, ¬w.fluents f.name → f ≠ rewardAtom.ground → s'.value f = s.value f

theorem State.Rewritten.trans {w : Writable} {s s' s'' : State R} (first : Rewritten w s s')
    (second : Rewritten w s' s'') : Rewritten w s s'' where
  facts predicate unwritten := (second.facts predicate unwritten).trans (first.facts predicate unwritten)
  values f unwritten others := (second.values f unwritten others).trans (first.values f unwritten others)

theorem writes_lead (w : Writable) (c : Changes R) (writes : c.Writes w) (s s' : State R) (leads : c.Lead s s') :
    State.Rewritten w s s' where
  facts predicate unwritten := by
    rw [State.factsOf, leads.facts]
    exact c.revise_unwritten w writes predicate unwritten s.facts
  values f unwritten others := by
    rw [leads.values f others]
    refine Changes.settle_untouched f _ _ fun change member same => ?_
    exact unwritten (same ▸ writes.assignments change member)

namespace Problem

theorem drawn_writes (p : Problem R) (s : State R) (step : Ground) (g : Action R) (os : List (R × Effect R))
    (listed : p.outcomesIn s step = .ok (g, os)) (draw : R) : (drawnEffect os draw).Writes p.domain.writable := by
  obtain ⟨grounded, -, expanded⟩ := (outcomes_in_ok_iff p s step g os).mp listed
  obtain ⟨a, known, σ, rfl⟩ := instance_bound p g (Or.inr ⟨step, grounded⟩)
  have writes := (Effect.writes_bind _ a.effect σ).mpr (p.domain.action_writes a known)
  have each := Effect.expand_becomes (Effect.writes_expand _) _ writes os expanded
  unfold drawnEffect
  split
  · next outcome found => exact each outcome (List.mem_of_getElem? found)
  · exact (Effect.writes_compositional _).skip

theorem sampled_writes (p : Problem R) (s s' : State R) (step : Ground) (dice rolled : Dice R)
    (sampled : p.sample s step dice = (.ok s', rolled)) : State.Rewritten p.domain.writable s s' := by
  obtain ⟨g, os, listed, succeeded⟩ := (sample_ok_iff p s s' step dice).mp (congrArg Prod.fst sampled)
  obtain ⟨-, -, expanded⟩ := (outcomes_in_ok_iff p s step g os).mp listed
  have applied := (successor_ok_iff p s step g _ s').mp succeeded
  obtain ⟨-, c, changes, leads⟩ := applied_changes _ s s' _ applied
  have deterministic := drawn_deterministic os (Effect.expand_deterministic g.effect os expanded) dice.roll.1
  cases (Effect.changes_gathered _ deterministic s []).symm.trans changes
  have writes := Effect.gathered_writes _ _ (drawn_writes p s step g os listed dice.roll.1) s []
  exact writes_lead _ _ writes s s' leads

-- The states that sampling step after step leads to.
inductive Visits (p : Problem R) : State R → Prop
  | start : Visits p p.initialState
  | step (s s' : State R) (step : Ground) (dice rolled : Dice R) :
      Visits p s → p.sample s step dice = (.ok s', rolled) → Visits p s'

theorem visited_writes (p : Problem R) (s : State R) (visited : p.Visits s) :
    State.Rewritten p.domain.writable p.initialState s := by
  induction visited with
  | start => exact ⟨fun _ _ => rfl, fun _ _ _ => rfl⟩
  | step s s' step dice rolled _ sampled ih => exact ih.trans (p.sampled_writes s s' step dice rolled sampled)

/-- Facts of static predicates and values of static functions, the reward apart, stay in every state what they are in
the first one. -/
theorem static_parts_are_constant (p : Problem R) (s : State R) (visited : p.Visits s) :
    (∀ predicate ∈ p.domain.staticPredicates,
        s.factsOf predicate.name = p.initialState.factsOf predicate.name) ∧
      ∀ function ∈ p.domain.staticFunctions, ∀ args, Ground.mk function.name args ≠ rewardAtom.ground →
        s.value ⟨function.name, args⟩ = p.initialState.value ⟨function.name, args⟩ := by
  have rewritten := p.visited_writes s visited
  constructor
  · intro predicate static
    exact rewritten.facts predicate.name (p.domain.static_predicate_unwritten predicate static)
  · intro function static args others
    exact rewritten.values ⟨function.name, args⟩ (p.domain.static_function_unwritten function static) others

def drive : Action ℚ where
  name := "drive"
  parameters := [⟨"?from", none⟩, ⟨"?to", none⟩]
  precondition := .conj [.fact ⟨"at", [⟨"?from", none⟩]⟩, .fact ⟨"road", [⟨"?from", none⟩, ⟨"?to", none⟩]⟩]
  effect := .conj
    [.probabilistic [(1 / 2, .conj [.delete ⟨"at", [⟨"?from", none⟩]⟩, .add ⟨"at", [⟨"?to", none⟩]⟩])],
      .assign .increase ⟨"fuel", []⟩ (.fluent ⟨"length", [⟨"?from", none⟩, ⟨"?to", none⟩]⟩)]
  origin := none

def roads : Domain ℚ where
  name := "roads"
  requirements := [.numericFluents, .probabilisticEffects]
  types := ⟨[]⟩
  constants := []
  predicates := [⟨"at", [⟨"?place", none⟩]⟩, ⟨"road", [⟨"?from", none⟩, ⟨"?to", none⟩]⟩]
  functions := [⟨"fuel", []⟩, ⟨"length", [⟨"?from", none⟩, ⟨"?to", none⟩]⟩]
  actions := [drive]

def trip : Problem ℚ where
  name := "trip"
  domain := roads
  objects := [⟨"home", none⟩, ⟨"work", none⟩]
  init := ⟨[⟨"at", ["home"]⟩, ⟨"road", ["home", "work"]⟩], [(⟨"length", ["home", "work"]⟩, 7)]⟩
  goal := ⟨.fact ⟨"at", [⟨"work", none⟩]⟩, none, none⟩

theorem static_parts_are_constant_trip :
    ∃ s, trip.Visits s ∧ s.facts = [⟨"at", ["work"]⟩, ⟨"road", ["home", "work"]⟩] ∧
      s.factsOf "road" = [⟨"road", ["home", "work"]⟩] ∧ s.value ⟨"fuel", []⟩ = 7 ∧
      s.value ⟨"length", ["home", "work"]⟩ = 7 := by
  have driven : (do
      let s ← (trip.sample trip.initialState ⟨"drive", ["home", "work"]⟩ (Dice.always (1 / 4))).1
      pure (s.facts, s.value ⟨"fuel", []⟩)).toOption =
        some ([⟨"at", ["work"]⟩, ⟨"road", ["home", "work"]⟩], 7) := by decide +kernel
  rw [to_option_iff] at driven
  simp only [bind_ok_iff, pure_ok_iff, Prod.mk.injEq] at driven
  obtain ⟨s, sampled, facts, fuel⟩ := driven
  have visited : trip.Visits s := .step _ s ⟨"drive", ["home", "work"]⟩ (Dice.always (1 / 4)) _ .start
    (Prod.ext sampled rfl)
  obtain ⟨predicates, functions⟩ := static_parts_are_constant trip s visited
  refine ⟨s, visited, facts, ?_, fuel, ?_⟩
  · exact (predicates ⟨"road", [⟨"?from", none⟩, ⟨"?to", none⟩]⟩ (by decide +kernel)).trans (by decide +kernel)
  · exact (functions ⟨"length", [⟨"?from", none⟩, ⟨"?to", none⟩]⟩ (by decide +kernel) _ (by decide)).trans
      (by decide +kernel)

end Problem

end Replan
