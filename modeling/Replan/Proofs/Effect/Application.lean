import Replan.Proofs.Effect.Expansion
import Replan.Proofs.Effect.Meaning

set_option autoImplicit false

namespace Replan

-- The same facts and objects, and the same value of every fluent, the totals among them.
structure State.LooksLike {R : Type} [Number R] (s t : State R) : Prop where
  facts : s.facts = t.facts
  world : s.world = t.world
  values : ∀ f, s.value f = t.value f
  totalCost : s.totalCost = t.totalCost
  reward : s.reward = t.reward

namespace Effect

section Alike

variable {R : Type} [Number R]

-- Both effects can be carried out, and what they lead to looks alike.
def LeadAlike (s : State R) (e f : Effect R) : Prop :=
  ∃ t u, e.apply s = .ok t ∧ f.apply s = .ok u ∧ t.LooksLike u

theorem agree_looks_like (s : State R) (a b : Changes R) (agree : Changes.Agree nothing a b) :
    (a.applyTo s).LooksLike (b.applyTo s) := by
  have values (f : Ground) : (a.applyTo s).value f = (b.applyTo s).value f := by
    rw [Changes.apply_to_value, Changes.apply_to_value, agree.values f id]
  constructor
  · rw [Changes.apply_to_facts, Changes.apply_to_facts, Changes.revise, Changes.revise, agree.adds, agree.deletes]
  · rw [Changes.apply_to_world, Changes.apply_to_world]
  · exact values
  · rw [State.total_cost_value, State.total_cost_value, values]
  · rw [State.reward_value, State.reward_value, values]

theorem agree_lead_alike (s : State R) (e f : Effect R) (first : e.hasProbabilistic = false)
    (second : f.hasProbabilistic = false) (agree : Changes.Agree nothing (e.gathered s []) (f.gathered s [])) :
    LeadAlike s e f :=
  ⟨_, _, apply_gathered e first s, apply_gathered f second s, agree_looks_like s _ _ agree⟩

omit [Number R] in
theorem within_reached (world : Universe) (e : Effect R) (reached : e.Within (Vocabulary.reached R world)) :
    e.Within (Vocabulary.populated R world) :=
  within_below _ _ (Query.reached_below_populated R world) (fun _ _ => id) id e reached

end Alike

/-- Simplification keeps what a deterministic effect does, where operands are numeric and quantifiers have something
to range over. -/
theorem simplification_keeps_application {K : Type} [ExactNumber K] (e : Effect K) (s : State K)
    (certain : e.hasProbabilistic = false) (numeric : e.Within (Vocabulary.numericOperands K))
    (reached : e.Within (Vocabulary.reached K s.world)) : LeadAlike s e.simplify e := by
  have formed := certain_within _ e numeric certain
  exact agree_lead_alike s e.simplify e (simplify_deterministic e certain) certain
    (simplify_gathered e s formed (within_reached s.world e reached) [])

def refuel : Effect ℚ :=
  .conj [.skip, .assign .assign Query.fuelAtom (.constant 2),
    .conj [.assign .increase Query.fuelAtom (.arithmetic .mul (.constant 0) (.fluent Query.fuelAtom)),
      .assign .scaleUp Query.fuelAtom (.constant 5)],
    .forAll [⟨"?x", some "block"⟩] (.conj [
      .when (.conj [.always, .forSome [⟨"?y", some "block"⟩] (.fact ⟨"clear", [Term.untyped "?y"]⟩)])
        (.conj [.delete ⟨"clear", [Term.untyped "?x"]⟩]),
      .when (.disj []) (.add ⟨"locked", [Term.untyped "?x"]⟩)]),
    .assign .decrease totalCostAtom (.constant 1)]

theorem simplification_keeps_application_refuel :
    refuel.hasProbabilistic = false ∧ refuel.Within (Vocabulary.numericOperands ℚ) ∧
      refuel.Within (Vocabulary.reached ℚ Query.fuelledState.world) ∧
      LeadAlike Query.fuelledState refuel.simplify refuel ∧
      ∃ t, refuel.apply Query.fuelledState = .ok t ∧ t.facts = [] ∧ t.value Query.fuelAtom.ground = 10 ∧
        t.totalCost = -1 := by
  have certain : refuel.hasProbabilistic = false := by decide +kernel
  have numeric : refuel.Within (Vocabulary.numericOperands ℚ) := by
    simp [refuel, Within, WithinList, Query.Within, Query.WithinList, Vocabulary.numericOperands, Query.Numeric]
  have offered : Query.fuelledState.world.bindings [⟨"?y", some "block"⟩] ≠ [] := by decide
  have reached : refuel.Within (Vocabulary.reached ℚ Query.fuelledState.world) := by
    simp [refuel, Within, WithinList, Query.Within, Query.WithinList, Vocabulary.reached, offered]
  have run : ((refuel.apply Query.fuelledState).map fun t =>
      (t.facts, t.value Query.fuelAtom.ground, t.totalCost)).toOption = some ([], 10, -1) := by decide +kernel
  obtain ⟨t, applied, same⟩ := (Results.map_ok_iff _ _ _).mp ((Results.to_option_iff _ _).mp run)
  simp only [Prod.mk.injEq] at same
  exact ⟨certain, numeric, reached, simplification_keeps_application refuel Query.fuelledState certain numeric reached,
    t, applied, same⟩

-- `(when (- (and (fuel)) 1) (spare))` compares and assigns nothing. It computes with a truth, which counts as one, where
-- the simplified effect computes with the fuel itself.
def spareWhenFuelled : Effect ℚ :=
  .when (.arithmetic .sub (.conj [.fluent Query.fuelAtom]) (.constant 1)) (.add ⟨"spare", []⟩)

theorem arithmetic_on_truths_is_not_kept : spareWhenFuelled.hasProbabilistic = false ∧
    spareWhenFuelled.Within (Vocabulary.reached ℚ Query.fuelledState.world) ∧
    ¬LeadAlike Query.fuelledState spareWhenFuelled.simplify spareWhenFuelled := by
  refine ⟨by decide +kernel, ?_, fun alike => ?_⟩
  · simp [spareWhenFuelled, Within, Query.Within, Query.WithinList, Vocabulary.reached]
  obtain ⟨t, u, simplified, applied, looks⟩ := alike
  have before : (spareWhenFuelled.apply Query.fuelledState).toOption.map State.facts = some [⟨"clear", ["a"]⟩] := by
    decide +kernel
  have after : (spareWhenFuelled.simplify.apply Query.fuelledState).toOption.map State.facts =
      some [⟨"clear", ["a"]⟩, ⟨"spare", []⟩] := by
    decide +kernel
  rw [applied] at before
  rw [simplified] at after
  have same := (Option.some.inj before).symm.trans (looks.facts.symm.trans (Option.some.inj after))
  cases same

end Effect

end Replan
