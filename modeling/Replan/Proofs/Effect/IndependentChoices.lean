import Mathlib.Algebra.BigOperators.Ring.List
import Replan.Proofs.Effect.Application
import Replan.Proofs.Effect.Nesting
import Replan.Proofs.Effect.Resolutions
import Replan.Proofs.Effect.Slack

set_option autoImplicit false

namespace Replan.Effect

open Results

variable {K : Type} [ExactNumber K]

def plainly (K : Type) (world : Universe) : Vocabulary K :=
  (Vocabulary.numericOperands K).both (Vocabulary.populated K world)

theorem plainly_expands (world : Universe) : Expands (Within (plainly K world)) (Within (plainly K world).certain) :=
  within_expands (plainly K world) fun q operand => ⟨q.simplify_stays_numeric operand.1, trivial⟩

theorem plainly_simplify (s : State K) (e : Effect K) (within : e.Within (plainly K s.world).certain) :
    Changes.Agree nothing (e.simplify.gathered s []) (e.gathered s []) :=
  simplify_gathered e s (both_certain_left _ _ e within) (within_of_certain _ e (both_certain_right _ _ e within)) []

section Listed

variable (s : State K)

def gatheredTogether (es : List (Effect K)) : Changes K := .join (es.map (gathered s []))

def Listed (branch : K × Effect K) (r : Resolution K) : Prop :=
  branch.1 = r.weight ∧ Changes.Agree nothing (branch.2.gathered s []) (gatheredTogether s r.leaves)

def ListedTogether (choice : K × List (Effect K)) (rs : List (Resolution K)) : Prop :=
  choice.1 = (together rs).weight ∧
    Changes.Agree nothing (gatheredTogether s choice.2) (gatheredTogether s (together rs).leaves)

theorem gathered_together_append (es fs : List (Effect K)) :
    gatheredTogether s (es ++ fs) = (gatheredTogether s es).append (gatheredTogether s fs) := by
  rw [gatheredTogether, List.map_append, Changes.join_append]
  rfl

theorem gathered_together_single (e : Effect K) : gatheredTogether s [e] = e.gathered s [] :=
  Changes.join_single _

theorem conj_gathered (es : List (Effect K)) : (conj es).gathered s [] = gatheredTogether s es := by
  rw [gathered, gathered_list]
  rfl

theorem listed_next (choice : K × List (Effect K)) (rs : List (Resolution K)) (branch : K × Effect K) (r : Resolution K)
    (sofar : ListedTogether s choice rs) (next : Listed s branch r) :
    ListedTogether s (choice.1 * branch.1, choice.2 ++ [branch.2]) (rs ++ [r]) := by
  constructor
  · simp only [together, List.map_append, List.prod_append, List.map_singleton, List.prod_singleton, sofar.1, next.1]
  · simp only [together, List.flatMap_append, List.flatMap_singleton, gathered_together_append, gathered_together_single]
    exact Changes.agree_append sofar.2 next.2

theorem branches_list_listed (es : List (Effect K))
    (each : ∀ e ∈ es, ∀ found, e.branches = .ok found → List.Forall₂ (Listed s) found e.resolutions)
    (sofar found : List (K × List (Effect K))) (starts : List (List (Resolution K)))
    (start : List.Forall₂ (ListedTogether s) sofar starts) (listed : branchesOfList sofar es = .ok found) :
    List.Forall₂ (ListedTogether s) found
      (starts.flatMap fun start => (resolutionsList es).map fun rest => start ++ rest) := by
  induction es generalizing sofar starts with
  | nil =>
      rw [branchesOfList, pure_ok_iff] at listed
      simpa [resolutionsList, listed] using start
  | cons e es ih =>
      rw [branchesOfList, bind_ok_iff] at listed
      obtain ⟨next, expanded, listed⟩ := listed
      have here := each e List.mem_cons_self next expanded
      have crossed : List.Forall₂ (ListedTogether s) (cross sofar next)
          (starts.flatMap fun start => e.resolutions.map fun r => start ++ [r]) :=
        List.rel_flatMap start fun choice rs known =>
          List.rel_map (fun branch r same => listed_next s choice rs branch r known same) here
      have rest := ih (fun f member => each f (List.mem_cons_of_mem e member)) _ _ crossed listed
      simpa [resolutionsList, List.flatMap_assoc, List.map_flatMap, List.flatMap_map, Function.comp_def] using rest

theorem branches_outcomes_listed (outcomes : List (K × Effect K))
    (each : ∀ outcome ∈ outcomes, ∀ found, outcome.2.branches = .ok found →
      List.Forall₂ (Listed s) found outcome.2.resolutions)
    (start : Nat) (found : List (K × Effect K)) (listed : branchesOfOutcomes outcomes = .ok found) :
    List.Forall₂ (Listed s) found (resolutionsOutcomes start outcomes) := by
  induction outcomes generalizing start found with
  | nil =>
      rw [branchesOfOutcomes, pure_ok_iff] at listed
      exact listed ▸ .nil
  | cons outcome outcomes ih =>
      obtain ⟨p, e⟩ := outcome
      simp only [branchesOfOutcomes, bind_ok_iff, pure_ok_iff] at listed
      obtain ⟨first, expanded, others, listed, rfl⟩ := listed
      have here := each (p, e) List.mem_cons_self first expanded
      have scaled : List.Forall₂ (Listed s) (first.map fun branch => (p * branch.1, branch.2))
          (e.resolutions.map (picked start p)) :=
        List.rel_map (fun branch r known => ⟨congrArg (p * ·) known.1, known.2⟩) here
      exact List.rel_append scaled
        (ih (fun f member => each f (List.mem_cons_of_mem _ member)) (start + 1) others listed)

theorem branches_listed (e : Effect K) (within : e.Within (plainly K s.world)) (found : List (K × Effect K))
    (listed : e.branches = .ok found) : List.Forall₂ (Listed s) found e.resolutions := by
  have single (e : Effect K) (deterministic : e.hasProbabilistic = false) :
      List.Forall₂ (Listed s) [(Number.one, e)] e.alone := by
    rw [alone, if_neg (by simp [deterministic])]
    refine .cons ⟨Number.one_exact, ?_⟩ .nil
    rw [gathered_together_single]
    exact Changes.agree_refl _
  induction e generalizing found with
  | conj parts ih =>
      simp only [branches, bind_ok_iff, pure_ok_iff] at listed
      obtain ⟨choices, listed, rfl⟩ := listed
      have inside (e : Effect K) (member : e ∈ parts) : e.Within (plainly K s.world) :=
        (within_list _ parts).mp within e member
      have start : List.Forall₂ (ListedTogether s) [((Number.one : K), ([] : List (Effect K)))] [[]] :=
        .cons ⟨Number.one_exact, Changes.agree_refl _⟩ .nil
      have chosen := branches_list_listed s parts (fun e member => ih e member (inside e member)) _ choices _ start listed
      have kept := branches_list_keep (Within (plainly K s.world).certain) parts
        (fun e member => branches_become (plainly_expands s.world) e (inside e member)) _ choices (by simp) listed
      simp only [List.flatMap_singleton, List.nil_append, List.map_id'] at chosen
      rw [resolutions, List.forall₂_map_left_iff, List.forall₂_map_right_iff]
      refine ((List.forall₂_and_left _ _).mpr ⟨kept, chosen⟩).imp fun choice rs known => ⟨known.2.1, ?_⟩
      have simplified := plainly_simplify s (conj choice.2) ((within_list _ choice.2).mpr known.1)
      exact Changes.agree_trans (conj_gathered s choice.2 ▸ simplified) known.2.2
  | forAll vars body _ =>
      obtain ⟨deterministic, rfl⟩ := (branches_for_all vars body found).mp listed
      exact single _ ((has_probabilistic_for_all vars body).trans deterministic)
  | when condition body _ =>
      obtain ⟨deterministic, rfl⟩ := (branches_when condition body found).mp listed
      exact single _ ((has_probabilistic_when condition body).trans deterministic)
  | probabilistic outcomes ih =>
      simp only [branches, bind_ok_iff, pure_ok_iff] at listed
      obtain ⟨inner, listed, rfl⟩ := listed
      have inside := (within_outcomes _ outcomes).mp within.2
      have chosen := branches_outcomes_listed s outcomes (fun outcome member => ih outcome member (inside outcome member))
        0 inner listed
      simp only [complete, Number.lt_exact, Number.one_exact, resolutions]
      split
      · exact List.rel_append chosen (.cons ⟨rfl, Changes.agree_refl _⟩ .nil)
      · rwa [List.append_nil]
  | skip | add | delete | assign =>
      rw [branches, pure_ok_iff] at listed
      exact listed ▸ single _ rfl

end Listed

theorem resolution_leads_alike (e : Effect K) (s : State K) (found : List (K × Effect K))
    (listed : e.branches = .ok found) (within : e.Within (plainly K s.world)) :
    List.Forall₂ (fun branch r => branch.1 = r.weight ∧ LeadAlike s branch.2 (conj r.leaves)) found e.resolutions := by
  have certain (branch : K × Effect K) (member : branch ∈ found) : branch.2.hasProbabilistic = false :=
    within_deterministic _ id _ (branches_become (plainly_expands s.world) e within found listed branch member)
  have leaves (r : Resolution K) (member : r ∈ e.resolutions) : (conj r.leaves).hasProbabilistic = false := by
    rw [has_probabilistic_conj, List.any_eq_false]
    intro leaf inLeaves
    simpa using e.resolves_certain r ((e.mem_resolutions r).mp member) leaf inLeaves
  refine (List.forall₂_iff_zip.mpr ⟨(branches_listed s e within found listed).length_eq, fun {branch r} pair => ?_⟩)
  obtain ⟨weight, agree⟩ := List.forall₂_zip (branches_listed s e within found listed) pair
  obtain ⟨inFound, inResolutions⟩ := List.of_mem_zip pair
  refine ⟨weight, agree_lead_alike s branch.2 (conj r.leaves) (certain branch inFound) (leaves r inResolutions) ?_⟩
  exact conj_gathered s r.leaves ▸ agree

/-- Expansion lists every way to resolve the probabilistic parts of an effect independently of each other, once, with
its probability and with what it does. What is negligible is settled afterwards. -/
theorem expansion_resolves_independently (e : Effect K) (numeric : e.Within (Vocabulary.numericOperands K)) :
    ((∃ found, e.branches = .ok found) ↔ e.nestsProbabilistic = false) ∧
      ∀ found, e.branches = .ok found →
        (∀ branch ∈ found, branch.2.hasProbabilistic = false) ∧
        (∃ rs : List (Resolution K), (rs.map Resolution.decision).Nodup ∧ (∀ r, r ∈ rs ↔ e.Resolves r) ∧
          ∀ s : State K, e.Within (Vocabulary.reached K s.world) →
            List.Forall₂ (fun branch r => branch.1 = r.weight ∧ LeadAlike s branch.2 (conj r.leaves)) found rs) ∧
        (e.Built → ∃ outcomes, e.expand = .ok outcomes ∧ Settles found outcomes) := by
  refine ⟨e.branches_succeed_iff, fun found listed => ⟨?_, ⟨e.resolutions, e.resolutions_nodup, e.mem_resolutions, ?_⟩, ?_⟩⟩
  · exact fun branch member => within_deterministic _ id _
      (branches_become (within_expands _ Query.simplify_stays_numeric) e numeric found listed
        branch member)
  · intro s reached
    exact resolution_leads_alike e s found listed (within_both _ _ e numeric (within_reached s.world e reached))
  · exact fun built => e.expand_settles built found listed

def journey : Effect ℚ :=
  .conj [.assign .assign ⟨"measured", []⟩ (.fluent Query.fuelAtom),
    .probabilistic [(1 / 2, .conj [.add ⟨"arrived", []⟩, .assign .decrease Query.fuelAtom (.constant 1)]),
      (1 / 4, .probabilistic [(1, .delete ⟨"clear", [Term.untyped "a"]⟩)])],
    .when (.forSome [⟨"?y", some "block"⟩] (.fact ⟨"clear", [Term.untyped "?y"]⟩))
      (.assign .scaleUp Query.fuelAtom (.constant 2))]

theorem expansion_resolves_independently_journey : journey.Within (Vocabulary.numericOperands ℚ) ∧
    ∃ found, journey.branches = .ok found ∧ found.map Prod.fst = [1 / 2, 1 / 4, 1 / 4] ∧
      (∀ branch ∈ found, branch.2.hasProbabilistic = false) ∧
      ∃ rs : List (Resolution ℚ), (rs.map Resolution.decision).Nodup ∧ (∀ r, r ∈ rs ↔ journey.Resolves r) ∧
        journey.Within (Vocabulary.reached ℚ Query.fuelledState.world) ∧
        List.Forall₂ (fun branch r => branch.1 = r.weight ∧ LeadAlike Query.fuelledState branch.2 (conj r.leaves)) found rs ∧
        journey.Built ∧ ∃ outcomes, journey.expand = .ok outcomes ∧ Settles found outcomes := by
  have numeric : journey.Within (Vocabulary.numericOperands ℚ) := by
    simp [journey, Within, WithinList, WithinOutcomes, Query.Within, Vocabulary.numericOperands, Query.Numeric]
  have offered : Query.fuelledState.world.bindings [⟨"?y", some "block"⟩] ≠ [] := by decide
  have reached : journey.Within (Vocabulary.reached ℚ Query.fuelledState.world) := by
    simp [journey, Within, WithinList, WithinOutcomes, Query.Within, Vocabulary.reached, offered]
  have built : journey.Built := by
    have assigned (op : AssignOp) (fluent : Atom) (value : Query ℚ) : (assign op fluent value).Built :=
      built_certain _ rfl
    have deleted (fact : Atom) : (delete fact : Effect ℚ).Built := built_certain _ rfl
    have added (fact : Atom) : (add fact : Effect ℚ).Built := built_certain _ rfl
    simp only [journey, built_conj, built_choice, built_when, List.forall_mem_cons, List.not_mem_nil, false_implies,
      implies_true, is_distribution_iff, assigned, deleted, added]
    decide +kernel
  have run : (journey.branches.map fun found => found.map Prod.fst).toOption = some [1 / 2, 1 / 4, 1 / 4] := by
    decide +kernel
  obtain ⟨found, listed, weights⟩ := (map_ok_iff _ _ _).mp ((to_option_iff _ _).mp run)
  obtain ⟨-, each⟩ := expansion_resolves_independently journey numeric
  obtain ⟨certain, ⟨rs, once, complete, alike⟩, settles⟩ := each found listed
  exact ⟨numeric, found, listed, weights, certain, rs, once, complete, reached, alike _ reached, built, settles built⟩

end Replan.Effect
