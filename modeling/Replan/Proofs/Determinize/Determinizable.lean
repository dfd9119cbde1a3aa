import Mathlib.Algebra.Order.Field.Basic
import Replan.Proofs.Determinize.Variant
import Replan.Proofs.Effect.Nesting
import Replan.Proofs.Effect.Slack
import Replan.Proofs.Simulator
import Replan.Proofs.Source.ReadDomains

set_option autoImplicit false

namespace Replan

open Results Source

section Success

variable {R : Type} [Number R]

theorem Effect.instance_expands_iff (e : Effect R) (σ : Substitution) :
    (∃ os, (e.bind σ).expand = .ok os) ↔ e.nestsProbabilistic = false := by
  rw [← e.expand_succeeds_iff, e.expand_bind]
  exact map_succeeds_iff e.expand _

theorem Problem.sample_succeeds_iff (p : Problem R) (s : State R) (step : Ground) (a g : Action R) (dice : Dice R)
    (known : p.domain.action? step.name = some a) (grounded : p.ground step = .ok g)
    (applicable : g.isApplicable s = true) :
    (∃ s', (p.sample s step dice).1 = .ok s') ↔ a.effect.nestsProbabilistic = false := by
  obtain ⟨b, found, bound⟩ := (problem_ground_ok_iff p step g).mp grounded
  obtain ⟨-, rfl⟩ := (ground_ok_iff b step.args g).mp bound
  cases known.symm.trans found
  rw [← a.effect.instance_expands_iff (a.assignment step.args)]
  constructor
  · rintro ⟨s', sampled⟩
    obtain ⟨g, os, listed, -⟩ := (sample_ok_iff p s s' step dice).mp sampled
    obtain ⟨again, -, expanded⟩ := (outcomes_in_ok_iff p s step g os).mp listed
    cases grounded.symm.trans again
    exact ⟨os, expanded⟩
  · rintro ⟨os, expanded⟩
    have listed := (outcomes_in_ok_iff p s step _ os).mpr ⟨grounded, applicable, expanded⟩
    obtain ⟨s', succeeded⟩ := drawn_succeeds p s step _ os listed dice.roll.1
    exact ⟨s', (sample_ok_iff p s s' step dice).mpr ⟨_, os, listed, succeeded⟩⟩

theorem Action.preprocess_succeeds_iff (a : Action R) : (∃ b, a.preprocess = .ok b) ↔
    a.effect.nestsProbabilistic = false ∧ ∀ os, a.effect.expand = .ok os → ∃ e, chooseAmong os = .ok e := by
  rw [← a.effect.expand_succeeds_iff]
  simp only [preprocess, bind_ok_iff, pure_ok_iff]
  constructor
  · rintro ⟨_, os, expanded, e, chosen, -⟩
    refine ⟨⟨os, expanded⟩, fun again listed => ?_⟩
    cases expanded.symm.trans listed
    exact ⟨e, chosen⟩
  · rintro ⟨⟨os, expanded⟩, each⟩
    obtain ⟨e, chosen⟩ := each os expanded
    exact ⟨_, os, expanded, e, chosen, rfl⟩

theorem Determinizer.set_domain_succeeds_iff (t : Determinizer R) (d : Domain R) :
    (∃ t', t.setDomain d = .ok t') ↔ ∀ a ∈ d.actions, ∃ b, a.preprocess = .ok b := by
  rw [← map_m_succeeds_iff]
  simp only [set_domain_ok_iff, Domain.preprocess, bind_ok_iff, pure_ok_iff]
  constructor
  · rintro ⟨_, _, ⟨actions, each, -⟩, -⟩
    exact ⟨actions, each⟩
  · rintro ⟨actions, each⟩
    exact ⟨_, _, ⟨actions, each, rfl⟩, rfl⟩

theorem Effect.legible_built {licence : RequirementSet → Prop} {number : R → Prop} (e : Effect R)
    (legible : e.Legible licence number) : e.Built := by
  induction e with
  | conj parts ih =>
      rw [Legible, legible_list] at legible
      exact (built_conj parts).mpr fun e member => ih e member (legible.2 e member)
  | forAll vars body ih => exact (built_for_all vars body).mpr (ih legible.2.2)
  | when condition body ih => exact (built_when condition body).mpr (ih legible.2.2)
  | probabilistic outcomes ih =>
      obtain ⟨-, -, distribution, each⟩ := legible
      rw [legible_outcomes] at each
      exact (built_choice outcomes).mpr ⟨distribution, fun outcome member => ih outcome member (each outcome member).2⟩
  | skip | add | delete | assign => exact built_certain _ rfl

end Success

section Exact

variable {K : Type} [ExactNumber K]

theorem Effect.accepted_iff (outcomes : List (K × Effect K)) (chanced : Chanced outcomes) :
    (∃ e, probabilistic? outcomes = .ok e) ↔ mass outcomes ≤ 1 + Number.epsilon := by
  constructor
  · rintro ⟨e, accepted⟩
    cases probabilistic_ok outcomes e accepted
    exact distribution_mass outcomes accepted
  · intro few
    refine ⟨probabilistic outcomes, (is_distribution_iff outcomes).mpr ⟨fun outcome member => ?_, ?_⟩⟩
    · have nonneg : ∀ p ∈ outcomes.map Prod.fst, 0 ≤ p := fun p known => ((chanced_iff outcomes).mp chanced p known).le
      have below := List.single_le_sum nonneg outcome.1 (List.mem_map_of_mem member)
      rw [isProbability, Bool.and_eq_true, Number.le_exact, Number.le_exact, Number.zero_exact, Number.one_exact]
      exact ⟨(chanced outcome member).le, below.trans (mass_exact outcomes ▸ few)⟩
    · rw [Bool.eq_false_iff, Ne, Number.lt_exact, Number.one_exact, not_lt]
      exact few

theorem Action.chosen_iff (outcomes : List (K × Effect K)) (chanced : Effect.Chanced outcomes) :
    (∃ e, chooseAmong outcomes = .ok e) ↔
      (∃ p e, outcomes = [(p, e)] ∧ 1 - Number.epsilon ≤ p) ∨ Effect.mass outcomes ≤ 1 + Number.epsilon := by
  rcases outcomes with _ | ⟨⟨p, e⟩, _ | ⟨other, rest⟩⟩
  · have light : Effect.mass ([] : List (K × Effect K)) ≤ 1 + Number.epsilon := by
      rw [Effect.mass_exact]
      exact (add_pos one_pos Number.epsilon_positive).le
    exact iff_of_true ⟨.skip, rfl⟩ (.inr light)
  · rw [chooseAmong]
    split
    · next certain =>
        rw [Number.le_exact, Number.one_exact] at certain
        exact iff_of_true ⟨e, rfl⟩ (.inl ⟨p, e, rfl, certain⟩)
    · next uncertain =>
        rw [Number.le_exact, Number.one_exact] at uncertain
        rw [Effect.accepted_iff _ chanced]
        refine (or_iff_right ?_).symm
        rintro ⟨_, _, same, certain⟩
        cases same
        exact uncertain certain
  · have several : ¬∃ p' e', (p, e) :: other :: rest = [(p', e')] ∧ 1 - Number.epsilon ≤ p' := by
      rintro ⟨_, _, ⟨⟩, _⟩
    exact (Effect.accepted_iff _ chanced).trans (or_iff_right several).symm

theorem Action.parsed_built (text : String) (d : Domain K) (parsed : Domain.parse text = .ok d) (a : Action K)
    (member : a ∈ d.actions) : a.effect.Built :=
  a.effect.legible_built ((Domain.parsed_legible text d parsed).1.actions a member).effect

theorem Action.parsed_masses (text : String) (d : Domain K) (parsed : Domain.parse text = .ok d) (a : Action K)
    (member : a ∈ d.actions) : ∀ m ∈ a.effect.masses, m ≤ 1 + Number.epsilon :=
  a.effect.built_masses (a.parsed_built text d parsed member)

end Exact

def Domain.Expandable {R : Type} (d : Domain R) : Prop := ∀ a ∈ d.actions, a.effect.nestsProbabilistic = false

def Determinizer.Accepts {R : Type} [Number R] (t : Determinizer R) (d : Domain R) : Prop :=
  ∃ t', t.setDomain d = .ok t'

theorem Determinizer.accepts_iff {R : Type} [Number R] (t : Determinizer R) (d : Domain R) :
    t.Accepts d ↔ d.Expandable ∧
      ∀ a ∈ d.actions, ∀ os, a.effect.expand = .ok os → ∃ e, Action.chooseAmong os = .ok e := by
  rw [Accepts, t.set_domain_succeeds_iff d]
  simp only [Action.preprocess_succeeds_iff, Domain.Expandable, forall₂_and]

/-- A domain that was read is accepted for determinization exactly when its actions can be expanded and what they
expand to is accepted as a distribution. By which arithmetic it is read does not matter for that; how far the sums can
go is exact. -/
theorem expandable_domains_are_determinizable (text : String) :
    (∀ (R : Type) [Number R] (d : Domain R), Domain.parse text = .ok d →
      (∀ (p : Problem R) (s : State R) (step : Ground) (a g : Action R) (dice : Dice R), p.domain = d →
        d.action? step.name = some a → p.ground step = .ok g → g.isApplicable s = true →
          ((∃ s', (p.sample s step dice).1 = .ok s') ↔ a.effect.nestsProbabilistic = false)) ∧
      ∀ t : Determinizer R, t.Accepts d ↔ d.Expandable ∧
        ∀ a ∈ d.actions, ∀ os, a.effect.expand = .ok os → ∃ e, Action.chooseAmong os = .ok e) ∧
    ∀ (K : Type) [ExactNumber K] (d : Domain K), Domain.parse text = .ok d →
      (∀ t : Determinizer K, t.Accepts d ↔ d.Expandable ∧ ∀ a ∈ d.actions, ∀ os, a.effect.expand = .ok os →
        (∃ p e, os = [(p, e)] ∧ 1 - Number.epsilon ≤ p) ∨ Effect.mass os ≤ 1 + Number.epsilon) ∧
      (∀ a ∈ d.actions, ∀ os, a.effect.expand = .ok os → Effect.mass os ≤ (a.effect.masses.map (max 1)).prod) ∧
      ((∀ a ∈ d.actions, a.effect.masses.length ≤ 1 ∨ ∀ m ∈ a.effect.masses, m ≤ 1) →
        ∀ t : Determinizer K, t.Accepts d ↔ d.Expandable) := by
  refine ⟨fun R _ d _ => ⟨?_, fun t => t.accepts_iff d⟩, fun K _ d parsed => ?_⟩
  · rintro p s step a g dice rfl known grounded applicable
    exact p.sample_succeeds_iff s step a g dice known grounded applicable
  have weighed (t : Determinizer K) : t.Accepts d ↔ d.Expandable ∧ ∀ a ∈ d.actions, ∀ os, a.effect.expand = .ok os →
      (∃ p e, os = [(p, e)] ∧ 1 - Number.epsilon ≤ p) ∨ Effect.mass os ≤ 1 + Number.epsilon := by
    refine (t.accepts_iff d).trans (and_congr_right fun _ => ?_)
    refine forall₄_congr fun a _ os expanded => ?_
    exact Action.chosen_iff os (Effect.expand_chanced a.effect os expanded)
  have slack (a : Action K) (member : a ∈ d.actions) := a.effect.expand_mass (a.parsed_built text d parsed member)
  refine ⟨weighed, slack, fun accurate t => (weighed t).trans (and_iff_left fun a member os expanded => .inr ?_)⟩
  have least : (1 : K) ≤ 1 + Number.epsilon := le_add_of_nonneg_right Number.epsilon_positive.le
  have each := a.parsed_masses text d parsed member
  exact (slack a member os expanded).trans (a.effect.slack_within _ least each (accurate a member))

def lostCoinText : String :=
  "(define (domain coins) (:requirements :probabilistic-effects) (:predicates (heads) (tails) (lost))
    (:action toss :effect (and (probabilistic 0.5 (heads) 0.5 (tails)) (probabilistic 0.1 (lost)))))"

def lostCoin (d : Domain ℚ) : Problem ℚ := ⟨"toss-it", d, [], ⟨[], []⟩, ⟨.fact ⟨"heads", []⟩, none, none⟩⟩

theorem expandable_domains_are_determinizable_toss :
    ∃ (d : Domain ℚ) (a : Action ℚ) (os : List (ℚ × Effect ℚ)), Domain.parse lostCoinText = .ok d ∧ a ∈ d.actions ∧
      a.effect.masses = [1, 1 / 10] ∧ a.effect.expand = .ok os ∧ Effect.mass os ≤ 1 ∧
      (Determinizer.ofDice .allOutcome (Dice.always 0)).Accepts d ∧
      ∃ s', ((lostCoin d).sample (lostCoin d).initialState ⟨"toss", []⟩ (Dice.always 0)).1 = .ok s' := by
  have run : (do
      let d : Domain ℚ ← Domain.parse lostCoinText
      let g ← (lostCoin d).ground ⟨"toss", []⟩
      pure ((d.action? "toss").map fun (a : Action ℚ) => a.effect.masses, g.isApplicable (lostCoin d).initialState,
        d.actions.all fun a => a.effect.masses.all (· ≤ 1) && !a.effect.nestsProbabilistic)).toOption =
          some (some [1, 1 / 10], true, true) := by
    rw [Domain.parse, Cursor.ofText, lostCoinText, String.toList_ofList]
    decide +kernel
  simp only [to_option_iff, bind_ok_iff, pure_ok_iff, Prod.mk.injEq, Option.map_eq_some_iff] at run
  obtain ⟨d, parsed, g, grounded, ⟨a, known, sums⟩, applicable, each⟩ := run
  simp only [List.all_eq_true, Bool.and_eq_true, decide_eq_true_eq, Bool.not_eq_true'] at each
  have member := (action_found d "toss" a known).1
  have expandable : d.Expandable := fun a member => (each a member).2
  obtain ⟨os, expanded⟩ := a.effect.expand_succeeds_iff.mpr (expandable a member)
  obtain ⟨inAny, inExact⟩ := expandable_domains_are_determinizable lostCoinText
  obtain ⟨-, light, accurate⟩ := inExact ℚ d parsed
  have few := light a member os expanded
  rw [sums] at few
  have taken := (inAny ℚ d parsed).1 (lostCoin d) _ ⟨"toss", []⟩ a g (Dice.always 0) rfl known grounded applicable
  refine ⟨d, a, os, parsed, member, sums, expanded, few.trans (by decide +kernel), ?_, taken.mpr (expandable a member)⟩
  exact (accurate (fun a member => .inr (each a member).1) _).mpr expandable

def slackText : String :=
  "(define (domain coins) (:requirements :probabilistic-effects) (:predicates (heads) (tails) (lost))
    (:action toss :effect (probabilistic 0.5 (lost) 0.5000009 (probabilistic 0.5 (heads) 0.5000009 (tails)))))"

/-- Both distributions are accepted, and the action can be executed, but the outcomes sum to 1.00000135. -/
theorem nested_slack_is_refused : ∃ d : Domain Float, Domain.parse slackText = .ok d ∧ d.Expandable ∧
    ∀ t : Determinizer Float, ¬t.Accepts d := by
  have run : ((Domain.parse (R := Float) slackText).map fun d =>
      (d.actions.all fun a => !a.effect.nestsProbabilistic, d.preprocess.isOk)).toOption = some (true, false) := by
    rw [Domain.parse, Cursor.ofText, slackText, String.toList_ofList]
    decide +kernel
  obtain ⟨d, parsed, checks⟩ := (map_ok_iff _ _ _).mp ((to_option_iff _ _).mp run)
  rw [Prod.mk.injEq, List.all_eq_true] at checks
  obtain ⟨expandable, refused⟩ := checks
  refine ⟨d, parsed, fun a member => by simpa using expandable a member, fun t accepted => ?_⟩
  obtain ⟨t', set⟩ := accepted
  obtain ⟨d', preprocessed, -⟩ := (set_domain_ok_iff t t' d).mp set
  rw [preprocessed] at refused
  exact Bool.false_ne_true refused.symm

end Replan
