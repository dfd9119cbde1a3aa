import Replan.Proofs.Effect.Slack

set_option autoImplicit false

namespace Replan.Effect

open Results

variable {K : Type} [ExactNumber K]

theorem built_probabilistic (outcomes : List (K × Effect K)) (e : Effect K)
    (accepted : probabilistic? outcomes = .ok e) (each : ∀ outcome ∈ outcomes, outcome.2.Built) : e.Built := by
  cases probabilistic_ok outcomes e accepted
  exact (built_choice outcomes).mpr ⟨accepted, each⟩

theorem le_least (e : Effect K) : (1 - Number.epsilon) ^ e.masses.length ≤ e.least := by
  have nonneg : (0 : K) ≤ 1 - Number.epsilon := sub_nonneg.mpr Number.epsilon_le_one
  calc (1 - Number.epsilon) ^ e.masses.length
      = (e.masses.map fun _ => 1 - Number.epsilon).prod := by rw [List.map_const', List.prod_replicate]
    _ ≤ e.least := List.prod_map_le_prod_map₀ _ _ (fun _ _ => nonneg) fun m _ => le_filled m

theorem slack_le (e : Effect K) (built : e.Built) : e.slack ≤ (1 + Number.epsilon) ^ e.masses.length := by
  have more : (1 : K) ≤ 1 + Number.epsilon := le_add_of_nonneg_right Number.epsilon_positive.le
  calc e.slack
      ≤ (e.masses.map fun _ => 1 + Number.epsilon).prod :=
        List.prod_map_le_prod_map₀ _ _ (fun m _ => zero_le_one.trans (le_max_left 1 m))
          fun m member => max_le more (e.built_masses built m member)
    _ = (1 + Number.epsilon) ^ e.masses.length := by rw [List.map_const', List.prod_replicate]

theorem least_exact (e : Effect K) (separated : ∀ m ∈ e.masses, 1 ≤ m ∨ Number.epsilon < 1 - m) : e.least = 1 := by
  refine List.prod_eq_one (List.forall_mem_map.mpr fun m member => ?_)
  rw [filled]
  split
  · rfl
  · next accurate => exact min_eq_left ((separated m member).resolve_right accurate)

theorem expand_mass_above (e : Effect K) (built : e.Built) (outcomes : List (K × Effect K))
    (expanded : e.expand = .ok outcomes) : e.least - Number.epsilon < mass outcomes := by
  obtain ⟨found, listed, rfl⟩ := (map_ok_iff _ _ _).mp expanded
  have weighs := branches_weigh e built found listed
  have least : e.least ≤ mass found := mass_exact found ▸ weighs.above
  rcases settled_mass (settle_settles found weighs.nonneg) with kept | ⟨-, few, less⟩
  · exact kept ▸ (sub_lt_self _ Number.epsilon_positive).trans_le least
  · calc e.least - Number.epsilon
        ≤ mass found - Number.epsilon := sub_le_sub_right least _
      _ < mass found - lost found := sub_lt_sub_left few _
      _ = mass (settle found) := sub_eq_of_eq_add less.symm

theorem expand_keeps_mass (e : Effect K) (built : e.Built) (found outcomes : List (K × Effect K))
    (listed : e.branches = .ok found) (expanded : e.expand = .ok outcomes)
    (kept : (∀ outcome ∈ found, Number.epsilon ≤ outcome.1) ∨
      ∃ outcome ∈ found, Number.epsilon ≤ outcome.1 ∧ outcome.2 = skip) : mass outcomes = mass found := by
  obtain ⟨again, same, rfl⟩ := (map_ok_iff _ _ _).mp expanded
  cases same.symm.trans listed
  rcases settled_mass (settle_settles found (branches_weigh e built found listed).nonneg) with all | ⟨changes, -, less⟩
  · exact all
  · rcases kept with each | ⟨outcome, member, enough, nothing⟩
    · have everything : likely found = found :=
        List.filter_eq_self.mpr fun outcome member => (Number.le_exact _ _).mpr (each outcome member)
      have parted := likely_and_lost found
      rw [everything] at parted
      rw [← less, add_eq_left.mp parted, add_zero]
    · exact absurd nothing (changes outcome ((mem_likely found outcome).mpr ⟨member, enough⟩))

/-- The outcomes of an expanded effect sum to nearly one. How far they can be off depends on how many distributions
there are in the effect, and on what each of them sums to. -/
theorem expanded_mass_is_nearly_one (e : Effect K) (built : e.Built) (outcomes : List (K × Effect K))
    (expanded : e.expand = .ok outcomes) :
    (∀ outcome ∈ outcomes, Number.epsilon ≤ outcome.1) ∧
      (1 - Number.epsilon) ^ e.masses.length - Number.epsilon < mass outcomes ∧
      mass outcomes ≤ (1 + Number.epsilon) ^ e.masses.length ∧
      ((∀ m ∈ e.masses, m ≤ 1) → mass outcomes ≤ 1) ∧
      ((∀ m ∈ e.masses, 1 ≤ m ∨ Number.epsilon < 1 - m) → 1 - Number.epsilon < mass outcomes) ∧
      ∀ found, e.branches = .ok found →
        ((∀ outcome ∈ found, Number.epsilon ≤ outcome.1) ∨
          ∃ outcome ∈ found, Number.epsilon ≤ outcome.1 ∧ outcome.2 = skip) →
        (1 - Number.epsilon) ^ e.masses.length ≤ mass outcomes := by
  have above := e.expand_mass_above built outcomes expanded
  have below := e.expand_mass built outcomes expanded
  refine ⟨?_, (sub_le_sub_right e.le_least _).trans_lt above, below.trans (e.slack_le built), ?_, ?_, ?_⟩
  · obtain ⟨found, listed, rfl⟩ := (map_ok_iff _ _ _).mp expanded
    have nonneg := (branches_weigh e built found listed).nonneg
    exact settled_likely nonneg (settle_settles found nonneg)
  · exact fun accurate => below.trans (e.slack_within 1 le_rfl accurate (.inr accurate))
  · exact fun separated => e.least_exact separated ▸ above
  · intro found listed kept
    rw [e.expand_keeps_mass built found outcomes listed expanded kept, mass_exact]
    exact e.le_least.trans (branches_weigh e built found listed).above

def heads : Atom := ⟨"heads", []⟩

def tails : Atom := ⟨"tails", []⟩

def missing : Atom := ⟨"missing", []⟩

def tossTwice : Effect ℚ :=
  .conj [.probabilistic [(1 / 10, .add missing), (9 / 10, .probabilistic [(1 / 2, .add heads), (1 / 2, .add tails)])],
    .probabilistic [(1 / 1000000000, .add missing)]]

theorem expanded_mass_is_nearly_one_toss : tossTwice.Built ∧ tossTwice.masses.length = 3 ∧
    ∃ outcomes, tossTwice.expand = .ok outcomes ∧ outcomes.length = 3 ∧ (∀ outcome ∈ outcomes, Number.epsilon ≤ outcome.1) ∧
      1 - Number.epsilon < mass outcomes ∧ mass outcomes < 1 := by
  have built : tossTwice.Built := by
    have plain (a : Atom) : (add a : Effect ℚ).Built := built_certain _ rfl
    simp only [tossTwice, built_conj, built_choice, List.forall_mem_cons, List.not_mem_nil, false_implies, implies_true,
      is_distribution_iff, plain]
    decide +kernel
  have counted : tossTwice.masses.length = 3 := by decide +kernel
  have separated : ∀ m ∈ tossTwice.masses, 1 ≤ m ∨ Number.epsilon < 1 - m := by decide +kernel
  have run : (tossTwice.expand.map fun outcomes => (outcomes.length, decide (mass outcomes < 1))).toOption = some (3, true) := by
    decide +kernel
  obtain ⟨outcomes, expanded, same⟩ := (map_ok_iff _ _ _).mp ((to_option_iff _ _).mp run)
  simp only [Prod.mk.injEq, decide_eq_true_eq] at same
  obtain ⟨each, -, -, -, above, -⟩ := expanded_mass_is_nearly_one tossTwice built outcomes expanded
  exact ⟨built, counted, outcomes, expanded, same.1, each, above separated, same.2⟩

def nestedSlack : Except (Error ℚ) (Effect ℚ) := do
  let inner ← probabilistic? [(1 / 2, .add heads), (5000009 / 10000000, .add tails)]
  probabilistic? [(1 / 2, .add missing), (5000009 / 10000000, inner)]

-- The distribution lacks less than the tolerance, and its last outcome is less likely than that.
def edge : Except (Error ℚ) (Effect ℚ) :=
  probabilistic? [(1 / 2, .add heads), (4999987 / 10000000, .add tails), (5 / 10000000, .add ⟨"edge", []⟩)]

theorem expanded_mass_leaves_the_tolerance :
    (∃ e outcomes, nestedSlack = .ok e ∧ e.Built ∧ e.expand = .ok outcomes ∧ 1 + Number.epsilon < mass outcomes) ∧
      ∃ e outcomes, edge = .ok e ∧ e.Built ∧ e.expand = .ok outcomes ∧ mass outcomes < 1 - Number.epsilon := by
  have plain (a : Atom) : (add a : Effect ℚ).Built := built_certain _ rfl
  constructor
  · have run : ((nestedSlack.bind expand).map fun outcomes => decide (1 + Number.epsilon < mass outcomes)).toOption =
        some true := by
      decide +kernel
    obtain ⟨outcomes, found, exceeds⟩ := (map_ok_iff _ _ _).mp ((to_option_iff _ _).mp run)
    obtain ⟨e, made, expanded⟩ := (bind_ok_iff _ _ _).mp found
    obtain ⟨inner, within, outer⟩ := (bind_ok_iff _ _ _).mp made
    have inside : inner.Built := built_probabilistic _ inner within (by simp [plain])
    exact ⟨e, outcomes, made, built_probabilistic _ e outer (by simp [plain, inside]), expanded, decide_eq_true_iff.mp exceeds⟩
  · have run : ((edge.bind expand).map fun outcomes => decide (mass outcomes < 1 - Number.epsilon)).toOption =
        some true := by
      decide +kernel
    obtain ⟨outcomes, found, lacks⟩ := (map_ok_iff _ _ _).mp ((to_option_iff _ _).mp run)
    obtain ⟨e, made, expanded⟩ := (bind_ok_iff _ _ _).mp found
    exact ⟨e, outcomes, made, built_probabilistic _ e made (by simp [plain]), expanded, decide_eq_true_iff.mp lacks⟩

end Replan.Effect
