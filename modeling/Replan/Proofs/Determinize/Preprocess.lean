import Replan.Determinize.Variant
import Replan.Proofs.Effect.Expansion
import Replan.Proofs.Effect.Substitution
import Replan.Proofs.Grounding
import Replan.Proofs.Number.Exact

set_option autoImplicit false

namespace Replan

open Results

namespace Effect

variable {R : Type} [Number R]

-- The outcomes as variants are numbered by them. A single certain outcome has probability one. An
-- empty list stands for the outcome that changes nothing, which is also what is drawn from it.
def numbered (outcomes : List (R × Effect R)) : List (R × Effect R) :=
  match outcomes with
  | [] => [(Number.one, skip)]
  | [(p, e)] => if Number.le (Number.one - Number.epsilon) p then [(Number.one, e)] else [(p, e)]
  | _ => outcomes

theorem numbered_map (f : Effect R → Effect R) (skipped : f skip = skip) (outcomes : List (R × Effect R)) :
    numbered (outcomes.map (mapOutcome f)) = (numbered outcomes).map (mapOutcome f) := by
  rcases outcomes with _ | ⟨⟨p, e⟩, _ | ⟨other, rest⟩⟩
  · simp only [List.map_nil, numbered, List.map_cons, mapOutcome, skipped]
  · simp only [List.map_cons, List.map_nil, numbered, mapOutcome]
    split <;> rfl
  · rfl

theorem numbered_nonempty (outcomes : List (R × Effect R)) : numbered outcomes ≠ [] := by
  rcases outcomes with _ | ⟨⟨p, e⟩, _ | ⟨other, rest⟩⟩
  · exact List.cons_ne_nil _ _
  · rw [numbered]
    split <;> exact List.cons_ne_nil _ _
  · exact List.cons_ne_nil _ _

theorem numbered_keeps (P : Effect R → Prop) (nothing : P skip) (outcomes : List (R × Effect R))
    (each : ∀ outcome ∈ outcomes, P outcome.2) : ∀ outcome ∈ numbered outcomes, P outcome.2 := by
  rcases outcomes with _ | ⟨⟨p, e⟩, _ | ⟨other, rest⟩⟩
  · exact List.forall_mem_singleton.mpr nothing
  · have only : P e := each (p, e) List.mem_cons_self
    rw [numbered]
    split <;> exact List.forall_mem_singleton.mpr only
  · exact each

end Effect

namespace Action

variable {R : Type} [Number R]

theorem outcomes_deterministic (a : Action R) (deterministic : a.effect.hasProbabilistic = false) :
    a.outcomes = [(Number.one, a.effect)] := by
  unfold outcomes
  split
  · next os probabilistic => simp [probabilistic, Effect.has_probabilistic_choice] at deterministic
  · rfl

theorem choose_among_outcomes (a : Action R) (outcomes : List (R × Effect R))
    (deterministic : ∀ outcome ∈ outcomes, outcome.2.hasProbabilistic = false) (effect : Effect R)
    (chosen : chooseAmong outcomes = .ok effect) :
    ({ a with effect } : Action R).outcomes = Effect.numbered outcomes := by
  rcases outcomes with _ | ⟨⟨p, e⟩, _ | ⟨other, rest⟩⟩
  · cases chosen
    rfl
  · simp only [chooseAmong, Effect.numbered] at chosen ⊢
    split at chosen
    · next certain =>
        cases chosen
        rw [if_pos certain]
        exact outcomes_deterministic _ (deterministic _ List.mem_cons_self)
    · next uncertain =>
        rw [Effect.probabilistic_ok _ _ chosen, if_neg uncertain]
        rfl
  · rw [Effect.probabilistic_ok _ _ chosen]
    rfl

theorem preprocess_outcomes (a b : Action R) (preprocessed : a.preprocess = .ok b) :
    ∃ os, a.effect.expand = .ok os ∧ b.outcomes = Effect.numbered os ∧
      b = { a with effect := b.effect } := by
  simp only [preprocess, bind_ok_iff, pure_ok_iff] at preprocessed
  obtain ⟨os, expanded, effect, chosen, rfl⟩ := preprocessed
  exact ⟨os, expanded,
    choose_among_outcomes a os (Effect.expand_deterministic _ _ expanded) effect chosen, rfl⟩

theorem preprocess_keeps (a b : Action R) (preprocessed : a.preprocess = .ok b) :
    b.name = a.name ∧ b.parameters = a.parameters ∧ b.precondition = a.precondition := by
  obtain ⟨_, _, _, shape⟩ := preprocess_outcomes a b preprocessed
  rw [shape]
  exact ⟨rfl, rfl, rfl⟩

theorem preprocess_assignment (a b : Action R) (preprocessed : a.preprocess = .ok b) (args : List String) :
    b.assignment args = a.assignment args := by
  rw [assignment, assignment, (preprocess_keeps a b preprocessed).2.1]

theorem preprocess_becomes {P Q : Effect R → Prop} (expands : Effect.Expands P Q) (a b : Action R)
    (holds : P a.effect) (preprocessed : a.preprocess = .ok b) : ∀ outcome ∈ b.outcomes, Q outcome.2 := by
  obtain ⟨os, expanded, numbering, -⟩ := preprocess_outcomes a b preprocessed
  rw [numbering]
  exact Effect.numbered_keeps Q expands.nothing os (Effect.expand_becomes expands a.effect holds os expanded)

theorem preprocess_within (v : Vocabulary R) (kept : ∀ q, v.operand q → v.operand q.simplify) (a b : Action R)
    (within : a.effect.Within v) (preprocessed : a.preprocess = .ok b) :
    Effect.AllWithin v.certain b.outcomes :=
  preprocess_becomes (Effect.within_expands v kept) a b within preprocessed

theorem preprocess_deterministic (a b : Action R) (preprocessed : a.preprocess = .ok b) :
    ∀ outcome ∈ b.outcomes, outcome.2.hasProbabilistic = false := by
  obtain ⟨os, expanded, numbering, -⟩ := preprocess_outcomes a b preprocessed
  rw [numbering]
  exact Effect.numbered_keeps (fun e => e.hasProbabilistic = false) rfl os (Effect.expand_deterministic _ _ expanded)

theorem ground_expand (a b : Action R) (preprocessed : a.preprocess = .ok b) (args : List String)
    (arity : args.length = a.parameters.length) :
    ∃ g os, a.ground args = .ok g ∧ g.effect.expand = .ok os ∧
      (Effect.numbered os =
        b.outcomes.map fun outcome => (outcome.1, outcome.2.bind (b.assignment args))) ∧
      (os = [] → b.outcomes = [(Number.one, .skip)]) := by
  obtain ⟨os, expanded, numbering, -⟩ := preprocess_outcomes a b preprocessed
  refine ⟨a.bind (a.assignment args), os.map (Effect.mapOutcome (Effect.bind (a.assignment args))), ?_, ?_, ?_, ?_⟩
  · rw [ground, if_pos arity]
  · rw [bind, Effect.expand_bind, expanded]
    rfl
  · rw [Effect.numbered_map _ rfl, numbering, preprocess_assignment a b preprocessed]
    rfl
  · intro nothing
    rw [numbering, List.map_eq_nil_iff.mp nothing, Effect.numbered]

end Action

namespace Domain

variable {R : Type} [Number R]

theorem preprocess_actions (d d' : Domain R) (preprocessed : d.preprocess = .ok d') :
    List.Forall₂ (fun a b => a.preprocess = .ok b) d.actions d'.actions ∧
      d' = { d with actions := d'.actions } := by
  simp only [preprocess, bind_ok_iff, pure_ok_iff, map_m_ok_iff] at preprocessed
  obtain ⟨actions, each, rfl⟩ := preprocessed
  exact ⟨each, rfl⟩

theorem preprocess_names (as bs : List (Action R))
    (each : List.Forall₂ (fun a b => a.preprocess = .ok b) as bs) :
    bs.map Action.name = as.map Action.name := by
  induction each with
  | nil => rfl
  | cons first _ ih => rw [List.map_cons, List.map_cons, (Action.preprocess_keeps _ _ first).1, ih]

theorem preprocess_nonempty (as bs : List (Action R)) (each : List.Forall₂ (fun a b => a.preprocess = .ok b) as bs)
    (b : Action R) (member : b ∈ bs) : b.outcomes ≠ [] := by
  obtain ⟨a, _, became⟩ := forall_two_right _ _ _ each b member
  obtain ⟨os, _, numbering, _⟩ := Action.preprocess_outcomes a b became
  rw [numbering]
  exact Effect.numbered_nonempty os

theorem preprocess_within (v : Vocabulary R) (kept : ∀ q, v.operand q → v.operand q.simplify) (as bs : List (Action R))
    (each : List.Forall₂ (fun a b => a.preprocess = .ok b) as bs) (within : ∀ a ∈ as, a.Within v) (b : Action R)
    (member : b ∈ bs) : b.precondition.Within v ∧ Effect.AllWithin v.certain b.outcomes := by
  obtain ⟨a, known, became⟩ := forall_two_right _ _ _ each b member
  refine ⟨?_, Action.preprocess_within v kept a b (within a known).2 became⟩
  rw [(Action.preprocess_keeps a b became).2.2]
  exact (within a known).1

theorem find_preprocessed (name : String) (as bs : List (Action R))
    (each : List.Forall₂ (fun a b => a.preprocess = .ok b) as bs) (a : Action R)
    (found : as.find? (fun a => a.name == name) = some a) :
    ∃ b, bs.find? (fun b => b.name == name) = some b ∧ a.preprocess = .ok b := by
  induction each with
  | nil => cases found
  | @cons first second as bs preprocessed rest ih =>
      have sameName := (Action.preprocess_keeps first second preprocessed).1
      rw [List.find?_cons] at found ⊢
      rw [sameName]
      cases hit : first.name == name with
      | true =>
          rw [hit] at found
          cases found
          exact ⟨second, rfl, preprocessed⟩
      | false =>
          rw [hit] at found
          exact ih found

end Domain

variable {R : Type} [Number R]

theorem drawn_effect_numbered (outcomes : List (R × Effect R)) (draw : R) :
    Problem.drawnEffect (Effect.numbered outcomes) draw = Problem.drawnEffect outcomes draw := by
  rcases outcomes with _ | ⟨⟨p, e⟩, _ | ⟨other, rest⟩⟩
  · rfl
  · simp only [Effect.numbered]
    split <;> rfl
  · rfl

/-- Substituting in an effect and expanding it commute. What a step draws from is, index by index, the grounding of
the outcomes that variants are numbered by; an expansion without outcomes stands for doing nothing. -/
theorem expansion_commutes_with_grounding :
    (∀ (e : Effect R) (σ : Substitution),
      (e.bind σ).expand = e.expand.map (List.map fun outcome => (outcome.1, outcome.2.bind σ))) ∧
    (∀ (d d' : Domain R), d.preprocess = .ok d' →
      List.Forall₂ (fun a b => b.name = a.name ∧ b.parameters = a.parameters ∧
        ∀ args, args.length = a.parameters.length →
          ∃ g os, a.ground args = .ok g ∧ g.effect.expand = .ok os ∧
            (Effect.numbered os =
              b.outcomes.map fun outcome => (outcome.1, outcome.2.bind (b.assignment args))) ∧
            (os = [] → b.outcomes = [(Number.one, .skip)]))
        d.actions d'.actions) ∧
    (∀ (p : Problem R) (d' : Domain R), p.domain.preprocess = .ok d' →
      ∀ (s : State R) (step : Ground) (g : Action R) (os : List (R × Effect R)),
        p.outcomesIn s step = .ok (g, os) →
          ∃ b, d'.action? step.name = some b ∧
            let grounded := b.outcomes.map fun outcome => (outcome.1, outcome.2.bind (b.assignment step.args))
            Effect.numbered os = grounded ∧
            (os = [] → b.outcomes = [(Number.one, .skip)]) ∧
            ∀ draw, Problem.drawnEffect os draw = Problem.drawnEffect grounded draw) := by
  refine ⟨Effect.expand_bind, ?_, ?_⟩
  · intro d d' preprocessed
    refine (Domain.preprocess_actions d d' preprocessed).1.imp fun a b each => ?_
    obtain ⟨name, parameters, -⟩ := Action.preprocess_keeps a b each
    refine ⟨name, parameters, ?_⟩
    exact Action.ground_expand a b each
  · intro p d' preprocessed s step g os listed
    obtain ⟨grounded, _, expanded⟩ := (outcomes_in_ok_iff p s step g os).mp listed
    obtain ⟨a, found, grounded⟩ := (problem_ground_ok_iff p step g).mp grounded
    obtain ⟨b, foundAfter, each⟩ := Domain.find_preprocessed step.name _ _
      (Domain.preprocess_actions _ d' preprocessed).1 a found
    have arity := ((ground_ok_iff a step.args g).mp grounded).1
    obtain ⟨g', os', grounded', expanded', numbering, nothing⟩ := Action.ground_expand a b each step.args arity
    cases grounded.symm.trans grounded'
    cases expanded.symm.trans expanded'
    refine ⟨b, foundAfter, numbering, nothing, fun draw => ?_⟩
    rw [← numbering, drawn_effect_numbered]

def coin : Term := ⟨"?c", some "coin"⟩

def toss : Action ℚ where
  name := "toss"
  parameters := [coin]
  precondition := .conj
    [.fact ⟨"ready", [coin]⟩,
      .forSome [⟨"?d", some "coin"⟩] (.neg (.fact ⟨"heads", [⟨"?d", none⟩]⟩))]
  effect := .conj
    [.probabilistic
        [(1 / 2, .add ⟨"heads", [coin]⟩), (1 / 4, .conj [.delete ⟨"ready", [coin]⟩])],
      .assign .increase rewardAtom (.constant 1),
      .assign .increase ⟨"tosses", []⟩ (.arithmetic .mul (.constant 1) (.constant 1))]
  origin := none

def polish : Action ℚ where
  name := "polish"
  parameters := [coin]
  precondition := .always
  effect := .conj [.add ⟨"ready", [coin]⟩]
  origin := none

def coins : Domain ℚ where
  name := "coins"
  requirements := [.typing, .numericFluents, .probabilisticEffects, .rewards]
  types := ⟨[("coin", "object")]⟩
  constants := []
  predicates := [⟨"ready", [coin]⟩, ⟨"heads", [coin]⟩]
  functions := [⟨"tosses", []⟩]
  actions := [toss, polish]

def twoCoins : Problem ℚ where
  name := "two-coins"
  domain := coins
  objects := [⟨"cent", some "coin"⟩, ⟨"dime", some "coin"⟩]
  init := ⟨[⟨"ready", ["cent"]⟩], []⟩
  goal := ⟨.fact ⟨"heads", [⟨"cent", none⟩]⟩, some 10, none⟩

theorem coins_formed : coins.Within (Vocabulary.numericOperands ℚ) := by
  simp [Domain.Within, coins, toss, polish, Action.Within, Query.Within, Query.WithinList, Effect.Within,
    Effect.WithinList, Effect.WithinOutcomes, Vocabulary.numericOperands, Query.Numeric]

theorem coins_populated : coins.Within (Vocabulary.populated ℚ twoCoins.world) := by
  have inhabited : twoCoins.world.objectsOf (some "coin") ≠ [] := by decide +kernel
  simp [Domain.Within, coins, toss, polish, Action.Within, Query.Within, Query.WithinList, Effect.Within,
    Effect.WithinList, Effect.WithinOutcomes, Vocabulary.populated, inhabited]

theorem expansion_commutes_with_grounding_toss :
    ∃ d' g os b, twoCoins.domain.preprocess = .ok d' ∧
      twoCoins.outcomesIn twoCoins.initialState ⟨"toss", ["cent"]⟩ = .ok (g, os) ∧
      d'.action? "toss" = some b ∧
      Effect.numbered os =
        b.outcomes.map fun outcome => (outcome.1, outcome.2.bind (b.assignment ["cent"])) := by
  obtain ⟨d', preprocessed⟩ := (is_ok_iff twoCoins.domain.preprocess).mp (by decide +kernel)
  obtain ⟨⟨g, os⟩, listed⟩ :=
    (is_ok_iff (twoCoins.outcomesIn twoCoins.initialState ⟨"toss", ["cent"]⟩)).mp (by decide +kernel)
  obtain ⟨b, found, numbering, -⟩ :=
    expansion_commutes_with_grounding.2.2 twoCoins d' preprocessed _ _ g os listed
  exact ⟨d', g, os, b, preprocessed, listed, found, numbering⟩

end Replan
