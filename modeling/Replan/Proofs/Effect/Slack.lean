import Mathlib.Algebra.BigOperators.Ring.List
import Mathlib.Algebra.Order.BigOperators.Group.List
import Mathlib.Algebra.Order.BigOperators.GroupWithZero.List
import Replan.Proofs.Effect.Settling

set_option autoImplicit false

namespace Replan.Effect

open Results

section Masses

variable {R : Type} [Number R]

def mass? : Effect R → Option R
  | probabilistic outcomes => some (mass outcomes)
  | _ => none

def masses (e : Effect R) : List R := e.nodes.filterMap mass?

theorem masses_conj (parts : List (Effect R)) : (conj parts).masses = parts.flatMap masses := by
  simp only [masses, nodes, nodes_list, List.filterMap_cons, List.filterMap_flatMap, mass?]
  rfl

theorem masses_choice (outcomes : List (R × Effect R)) :
    (probabilistic outcomes).masses = mass outcomes :: outcomes.flatMap fun outcome => outcome.2.masses := by
  simp only [masses, nodes, nodes_outcomes, List.filterMap_cons, List.filterMap_flatMap, mass?]

theorem mem_masses (e : Effect R) (m : R) :
    m ∈ e.masses ↔ ∃ outcomes, probabilistic outcomes ∈ e.nodes ∧ mass outcomes = m := by
  rw [masses, List.mem_filterMap]
  constructor
  · rintro ⟨node, known, weighed⟩
    cases node <;> cases weighed
    exact ⟨_, known, rfl⟩
  · rintro ⟨outcomes, known, rfl⟩
    exact ⟨_, known, rfl⟩

end Masses

variable {K α β : Type} [ExactNumber K]

theorem distribution_nonneg (outcomes : List (K × Effect K)) (distribution : IsDistribution outcomes) :
    ∀ outcome ∈ outcomes, 0 ≤ outcome.1 := by
  intro outcome member
  have probable := ((is_distribution_iff outcomes).mp distribution).1 outcome member
  rw [isProbability, Bool.and_eq_true, Number.le_exact, Number.zero_exact] at probable
  exact probable.1

theorem distribution_mass (outcomes : List (K × Effect K)) (distribution : IsDistribution outcomes) :
    mass outcomes ≤ 1 + Number.epsilon := by
  have few := ((is_distribution_iff outcomes).mp distribution).2
  rw [← Number.one_exact, ← not_lt, ← Number.lt_exact, few]
  exact Bool.false_ne_true

theorem built_masses (e : Effect K) (built : e.Built) : ∀ m ∈ e.masses, m ≤ 1 + Number.epsilon := by
  intro m weighed
  obtain ⟨outcomes, inside, rfl⟩ := (mem_masses e m).mp weighed
  exact distribution_mass outcomes (built outcomes inside)

-- Distributions that sum to less than one are filled up, so that only what they exceed one by counts.
def slack (e : Effect K) : K := (e.masses.map (max 1)).prod

def filled (m : K) : K := if Number.epsilon < 1 - m then 1 else min 1 m

def least (e : Effect K) : K := (e.masses.map filled).prod

theorem filled_le_one (m : K) : filled m ≤ 1 := by
  rw [filled]
  split
  · exact le_rfl
  · exact min_le_left 1 m

theorem le_filled (m : K) : 1 - Number.epsilon ≤ filled m := by
  have below : (1 : K) - Number.epsilon ≤ 1 := sub_le_self 1 Number.epsilon_positive.le
  rw [filled]
  split
  · exact below
  · next accurate => exact le_min below (sub_le_comm.mp (not_lt.mp accurate))

theorem filled_nonneg (m : K) : 0 ≤ filled m :=
  (sub_nonneg.mpr Number.epsilon_le_one).trans (le_filled m)

theorem prod_flat_map (g : K → K) (f : α → List K) (xs : List α) :
    ((xs.flatMap f).map g).prod = (xs.map fun x => ((f x).map g).prod).prod := by
  induction xs with
  | nil => rfl
  | cons x xs ih => rw [List.flatMap_cons, List.map_append, List.prod_append, List.map_cons, List.prod_cons, ih]

theorem product_conj (g : K → K) (parts : List (Effect K)) :
    ((conj parts).masses.map g).prod = (parts.map fun e => (e.masses.map g).prod).prod := by
  rw [masses_conj, prod_flat_map]

theorem product_choice (g : K → K) (outcomes : List (K × Effect K)) : ((probabilistic outcomes).masses.map g).prod =
    g (mass outcomes) * ((outcomes.map Prod.snd).map fun e => (e.masses.map g).prod).prod := by
  rw [masses_choice, List.map_cons, List.prod_cons, prod_flat_map, List.map_map]
  rfl

theorem slack_conj (parts : List (Effect K)) : (conj parts).slack = (parts.map slack).prod := product_conj (max 1) parts

theorem least_conj (parts : List (Effect K)) : (conj parts).least = (parts.map least).prod := product_conj filled parts

theorem slack_choice (outcomes : List (K × Effect K)) : (probabilistic outcomes).slack =
    max 1 (mass outcomes) * ((outcomes.map Prod.snd).map slack).prod := product_choice (max 1) outcomes

theorem least_choice (outcomes : List (K × Effect K)) : (probabilistic outcomes).least =
    filled (mass outcomes) * ((outcomes.map Prod.snd).map least).prod := product_choice filled outcomes

theorem one_le_slack (e : Effect K) : 1 ≤ e.slack :=
  List.one_le_prod (List.forall_mem_map.mpr fun m _ => le_max_left 1 m)

theorem least_nonneg (e : Effect K) : 0 ≤ e.least :=
  List.prod_nonneg (List.forall_mem_map.mpr fun m _ => filled_nonneg m)

theorem least_le_one (e : Effect K) : e.least ≤ 1 := by
  calc (e.masses.map filled).prod
      ≤ (e.masses.map fun _ => 1).prod := List.prod_map_le_prod_map₀ _ _ (fun m _ => filled_nonneg m) fun m _ => filled_le_one m
    _ = 1 := List.prod_eq_one (by simp)

theorem one_le_slack_prod (es : List (Effect K)) : 1 ≤ (es.map slack).prod :=
  List.one_le_prod (List.forall_mem_map.mpr fun e _ => e.one_le_slack)

theorem slack_le_prod (es : List (Effect K)) (e : Effect K) (member : e ∈ es) : e.slack ≤ (es.map slack).prod := by
  obtain ⟨before, after, rfl⟩ := List.append_of_mem member
  have later : 1 ≤ e.slack * (after.map slack).prod :=
    one_le_mul_of_one_le_of_one_le e.one_le_slack (one_le_slack_prod after)
  rw [List.map_append, List.map_cons, List.prod_append, List.prod_cons]
  calc e.slack
      ≤ e.slack * (after.map slack).prod :=
        le_mul_of_one_le_right (zero_le_one.trans e.one_le_slack) (one_le_slack_prod after)
    _ ≤ (before.map slack).prod * (e.slack * (after.map slack).prod) :=
        le_mul_of_one_le_left (zero_le_one.trans later) (one_le_slack_prod before)

theorem least_prod_nonneg (es : List (Effect K)) : 0 ≤ (es.map least).prod :=
  List.prod_nonneg (List.forall_mem_map.mpr fun e _ => e.least_nonneg)

theorem least_prod_le_one (es : List (Effect K)) : (es.map least).prod ≤ 1 := by
  calc (es.map least).prod
      ≤ (es.map fun _ => 1).prod := List.prod_map_le_prod_map₀ _ _ (fun e _ => e.least_nonneg) fun e _ => e.least_le_one
    _ = 1 := List.prod_eq_one (by simp)

theorem prod_le_least (es : List (Effect K)) (e : Effect K) (member : e ∈ es) : (es.map least).prod ≤ e.least := by
  obtain ⟨before, after, rfl⟩ := List.append_of_mem member
  rw [List.map_append, List.map_cons, List.prod_append, List.prod_cons]
  calc (before.map least).prod * (e.least * (after.map least).prod)
      ≤ e.least * (after.map least).prod :=
        mul_le_of_le_one_left (mul_nonneg e.least_nonneg (least_prod_nonneg after)) (least_prod_le_one before)
    _ ≤ e.least := mul_le_of_le_one_right e.least_nonneg (least_prod_le_one after)

structure Weighs (lower upper : K) (xs : List (K × α)) : Prop where
  nonneg : ∀ x ∈ xs, 0 ≤ x.1
  above : lower ≤ (xs.map Prod.fst).sum
  below : (xs.map Prod.fst).sum ≤ upper

theorem weighs_relaxed {a b lower upper : K} (xs : List (K × α)) (weighs : Weighs a b xs) (above : lower ≤ a)
    (below : b ≤ upper) : Weighs lower upper xs :=
  ⟨weighs.nonneg, above.trans weighs.above, weighs.below.trans below⟩

theorem weighs_nil : Weighs (0 : K) 0 ([] : List (K × α)) := ⟨by simp, le_rfl, le_rfl⟩

theorem weighs_single (p : K) (nonneg : 0 ≤ p) (x : α) : Weighs p p [(p, x)] :=
  ⟨List.forall_mem_singleton.mpr nonneg, ge_of_eq List.sum_singleton, le_of_eq List.sum_singleton⟩

theorem weighs_append {a b c d : K} (xs ys : List (K × α)) (first : Weighs a b xs) (second : Weighs c d ys) :
    Weighs (a + c) (b + d) (xs ++ ys) := by
  have total : ((xs ++ ys).map Prod.fst).sum = (xs.map Prod.fst).sum + (ys.map Prod.fst).sum := by
    rw [List.map_append, List.sum_append]
  refine ⟨List.forall_mem_append.mpr ⟨first.nonneg, second.nonneg⟩, ?_, ?_⟩
  · exact total ▸ add_le_add first.above second.above
  · exact total ▸ add_le_add first.below second.below

theorem weighs_scaled {a b p : K} (nonneg : 0 ≤ p) (f : α → β) (xs : List (K × α)) (weighs : Weighs a b xs) :
    Weighs (p * a) (p * b) (xs.map fun x => (p * x.1, f x.2)) := by
  have scaled : ((xs.map fun x => (p * x.1, f x.2)).map Prod.fst).sum = p * (xs.map Prod.fst).sum := by
    rw [List.map_map]
    exact List.sum_map_mul_left xs Prod.fst p
  refine ⟨List.forall_mem_map.mpr fun x member => mul_nonneg nonneg (weighs.nonneg x member), ?_, ?_⟩
  · exact scaled ▸ mul_le_mul_of_nonneg_left weighs.above nonneg
  · exact scaled ▸ mul_le_mul_of_nonneg_left weighs.below nonneg

theorem sum_nonneg (xs : List (K × α)) (nonneg : ∀ x ∈ xs, 0 ≤ x.1) : 0 ≤ (xs.map Prod.fst).sum :=
  List.sum_nonneg (List.forall_mem_map.mpr nonneg)

theorem cross_weighs {a b c d : K} (lower : 0 ≤ c) (sofar : List (K × List (Effect K))) (next : List (K × Effect K))
    (first : Weighs a b sofar) (second : Weighs c d next) : Weighs (a * c) (b * d) (cross sofar next) := by
  have total := sum_nonneg sofar first.nonneg
  have each : Weighs ((sofar.map Prod.fst).sum * c) ((sofar.map Prod.fst).sum * d) (cross sofar next) := by
    have nonneg := first.nonneg
    clear first total
    induction sofar with
    | nil =>
        rw [List.map_nil, List.sum_nil, zero_mul, zero_mul]
        exact weighs_nil
    | cons choice sofar ih =>
        obtain ⟨here, others⟩ := List.forall_mem_cons.mp nonneg
        rw [List.map_cons, List.sum_cons, add_mul, add_mul]
        exact weighs_append _ _ (weighs_scaled here (fun e => choice.2 ++ [e]) next second) (ih others)
  have upper : 0 ≤ d := (sum_nonneg next second.nonneg).trans second.below
  exact weighs_relaxed _ each (mul_le_mul_of_nonneg_right first.above lower)
    (mul_le_mul_of_nonneg_right first.below upper)

theorem branches_list_weigh (es : List (Effect K))
    (each : ∀ e ∈ es, ∀ found, e.branches = .ok found → Weighs e.least e.slack found) (lower upper : K)
    (sofar found : List (K × List (Effect K))) (start : Weighs lower upper sofar)
    (listed : branchesOfList sofar es = .ok found) :
    Weighs (lower * (es.map least).prod) (upper * (es.map slack).prod) found := by
  induction es generalizing lower upper sofar with
  | nil =>
      rw [branchesOfList, pure_ok_iff] at listed
      rw [List.map_nil, List.map_nil, List.prod_nil, mul_one, mul_one]
      exact listed ▸ start
  | cons e es ih =>
      rw [branchesOfList, bind_ok_iff] at listed
      obtain ⟨next, expanded, listed⟩ := listed
      have here := each e List.mem_cons_self next expanded
      rw [List.map_cons, List.map_cons, List.prod_cons, List.prod_cons, ← mul_assoc, ← mul_assoc]
      exact ih (fun f member => each f (List.mem_cons_of_mem e member)) _ _ (cross sofar next)
        (cross_weighs e.least_nonneg sofar next start here) listed

theorem branches_outcomes_weigh (lower upper : K) (outcomes : List (K × Effect K))
    (nonneg : ∀ outcome ∈ outcomes, 0 ≤ outcome.1)
    (each : ∀ outcome ∈ outcomes, ∀ found, outcome.2.branches = .ok found → Weighs lower upper found)
    (found : List (K × Effect K)) (listed : branchesOfOutcomes outcomes = .ok found) :
    Weighs (mass outcomes * lower) (mass outcomes * upper) found := by
  rw [mass_exact]
  induction outcomes generalizing found with
  | nil =>
      rw [branchesOfOutcomes, pure_ok_iff] at listed
      rw [List.map_nil, List.sum_nil, zero_mul, zero_mul]
      exact listed ▸ weighs_nil
  | cons outcome outcomes ih =>
      obtain ⟨p, e⟩ := outcome
      simp only [branchesOfOutcomes, bind_ok_iff, pure_ok_iff] at listed
      obtain ⟨first, expanded, others, listed, rfl⟩ := listed
      obtain ⟨here, later⟩ := List.forall_mem_cons.mp nonneg
      have scaled := weighs_scaled here id first (each (p, e) List.mem_cons_self first expanded)
      rw [List.map_cons, List.sum_cons, add_mul, add_mul]
      exact weighs_append _ _ scaled
        (ih later (fun f member => each f (List.mem_cons_of_mem _ member)) others listed)

theorem complete_weighs (massOf lower upper : K) (nonneg : 0 ≤ lower) (le_one : lower ≤ 1) (one_le : 1 ≤ upper)
    (inner : List (K × Effect K)) (weighs : Weighs (massOf * lower) (massOf * upper) inner) :
    Weighs (filled massOf * lower) (max 1 massOf * upper) (complete massOf inner) := by
  have positive : 0 ≤ upper := zero_le_one.trans one_le
  simp only [complete, Number.lt_exact, Number.one_exact, filled]
  split
  · next lacking =>
      have rest : 0 ≤ 1 - massOf := (Number.epsilon_positive.trans lacking).le
      refine weighs_relaxed _ (weighs_append _ _ weighs (weighs_single (1 - massOf) rest skip)) ?_ ?_
      · calc 1 * lower
            = massOf * lower + (1 - massOf) * lower := by rw [← add_mul, add_sub_cancel]
          _ ≤ massOf * lower + (1 - massOf) := by
              gcongr
              exact mul_le_of_le_one_right rest le_one
      · calc massOf * upper + (1 - massOf)
            ≤ massOf * upper + (1 - massOf) * upper := by
              gcongr
              exact le_mul_of_one_le_right rest one_le
          _ = 1 * upper := by rw [← add_mul, add_sub_cancel]
          _ ≤ max 1 massOf * upper := mul_le_mul_of_nonneg_right (le_max_left 1 massOf) positive
  · exact weighs_relaxed _ weighs (mul_le_mul_of_nonneg_right (min_le_right 1 massOf) nonneg)
      (mul_le_mul_of_nonneg_right (le_max_right 1 massOf) positive)

theorem branches_weigh (e : Effect K) (built : e.Built) (found : List (K × Effect K))
    (listed : e.branches = .ok found) : Weighs e.least e.slack found := by
  have certain (e : Effect K) {α : Type} (x : α) : Weighs e.least e.slack [((Number.one : K), x)] := by
    rw [Number.one_exact]
    exact weighs_relaxed _ (weighs_single 1 zero_le_one x) e.least_le_one e.one_le_slack
  induction e generalizing found with
  | conj parts ih =>
      simp only [branches, bind_ok_iff, pure_ok_iff] at listed
      obtain ⟨choices, listed, rfl⟩ := listed
      have each (e : Effect K) (member : e ∈ parts) := ih e member ((built_conj parts).mp built e member)
      have start : Weighs (1 : K) 1 [((Number.one : K), ([] : List (Effect K)))] := by
        rw [Number.one_exact]
        exact weighs_single 1 zero_le_one []
      have weighs := branches_list_weigh parts each 1 1 _ choices start listed
      have joined := weighs_scaled zero_le_one (fun es => (conj es).simplify) choices weighs
      rw [least_conj, slack_conj]
      simpa only [one_mul] using joined
  | forAll vars body _ =>
      obtain ⟨-, rfl⟩ := (branches_for_all vars body found).mp listed
      exact certain _ _
  | when condition body _ =>
      obtain ⟨-, rfl⟩ := (branches_when condition body found).mp listed
      exact certain _ _
  | probabilistic outcomes ih =>
      simp only [branches, bind_ok_iff, pure_ok_iff] at listed
      obtain ⟨inner, listed, rfl⟩ := listed
      obtain ⟨distribution, inside⟩ := (built_choice outcomes).mp built
      let below : List (Effect K) := outcomes.map Prod.snd
      have each (outcome : K × Effect K) (member : outcome ∈ outcomes) (found : List (K × Effect K))
          (expanded : outcome.2.branches = .ok found) : Weighs (below.map least).prod (below.map slack).prod found := by
        have weighs := ih outcome member (inside outcome member) found expanded
        have among : outcome.2 ∈ below := List.mem_map_of_mem member
        exact weighs_relaxed _ weighs (prod_le_least below outcome.2 among) (slack_le_prod below outcome.2 among)
      have weighs := branches_outcomes_weigh _ _ outcomes (distribution_nonneg outcomes distribution) each inner listed
      rw [least_choice, slack_choice]
      exact complete_weighs (mass outcomes) _ _ (least_prod_nonneg below) (least_prod_le_one below)
        (one_le_slack_prod below) inner weighs
  | skip | add | delete | assign =>
      rw [branches, pure_ok_iff] at listed
      exact listed ▸ certain _ _

theorem expand_settles (e : Effect K) (built : e.Built) (found : List (K × Effect K)) (listed : e.branches = .ok found) :
    ∃ outcomes, e.expand = .ok outcomes ∧ Settles found outcomes :=
  ⟨settle found, (map_ok_iff _ _ _).mpr ⟨found, listed, rfl⟩,
    settle_settles found (branches_weigh e built found listed).nonneg⟩

theorem expand_mass (e : Effect K) (built : e.Built) (outcomes : List (K × Effect K)) (expanded : e.expand = .ok outcomes) :
    mass outcomes ≤ e.slack := by
  obtain ⟨found, listed, rfl⟩ := (map_ok_iff _ _ _).mp expanded
  have weighs := branches_weigh e built found listed
  refine le_trans ?_ (mass_exact found ▸ weighs.below)
  rcases settled_mass (settle_settles found weighs.nonneg) with kept | ⟨-, -, less⟩
  · exact le_of_eq kept
  · exact less ▸ le_add_of_nonneg_right (lost_nonneg found weighs.nonneg)

theorem slack_within (e : Effect K) (bound : K) (one_le : 1 ≤ bound) (each : ∀ m ∈ e.masses, m ≤ bound)
    (few : e.masses.length ≤ 1 ∨ ∀ m ∈ e.masses, m ≤ 1) : e.slack ≤ bound := by
  rcases few with single | accurate
  · rw [slack]
    rcases sums : e.masses with _ | ⟨m, _ | ⟨other, rest⟩⟩
    · exact one_le
    · rw [sums, List.forall_mem_singleton] at each
      rw [List.map_singleton, List.prod_singleton]
      exact max_le one_le each
    · rw [sums] at single
      simp at single
  · have exactly : e.slack = 1 := by
      refine List.prod_eq_one (List.forall_mem_map.mpr fun m member => ?_)
      exact max_eq_left (accurate m member)
    rw [exactly]
    exact one_le

end Replan.Effect
