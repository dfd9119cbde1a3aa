import Replan.Proofs.Effect.Expansion
import Replan.Proofs.Results

set_option autoImplicit false

namespace Replan.Effect

open Results

variable {R : Type}

def shelters : Effect R → Bool
  | forAll _ body => body.hasProbabilistic
  | when _ body => body.hasProbabilistic
  | _ => false

def nestsProbabilistic (e : Effect R) : Bool := e.nodes.any shelters

theorem nests_conj (parts : List (Effect R)) :
    (conj parts).nestsProbabilistic = parts.any nestsProbabilistic := by
  simp only [nestsProbabilistic, nodes, nodes_list, shelters, List.any_cons, List.any_flatMap, Bool.false_or]
  rfl

theorem nests_choice (outcomes : List (R × Effect R)) :
    (probabilistic outcomes).nestsProbabilistic = outcomes.any fun outcome => outcome.2.nestsProbabilistic := by
  simp only [nestsProbabilistic, nodes, nodes_outcomes, shelters, List.any_cons, List.any_flatMap, Bool.false_or]

theorem nests_has (e : Effect R) (nested : e.nestsProbabilistic = true) : e.hasProbabilistic = true := by
  induction e with
  | conj parts ih =>
      rw [nests_conj, List.any_eq_true] at nested
      obtain ⟨e, member, inside⟩ := nested
      rw [has_probabilistic_conj, List.any_eq_true]
      exact ⟨e, member, ih e member inside⟩
  | forAll vars body ih =>
      rw [has_probabilistic_for_all]
      have below : (body.hasProbabilistic || body.nestsProbabilistic) = true := nested
      exact ((Bool.or_eq_true _ _).mp below).elim id ih
  | when condition body ih =>
      rw [has_probabilistic_when]
      have below : (body.hasProbabilistic || body.nestsProbabilistic) = true := nested
      exact ((Bool.or_eq_true _ _).mp below).elim id ih
  | probabilistic outcomes => exact has_probabilistic_choice outcomes
  | skip | add | delete | assign => cases nested

theorem nests_for_all (vars : List Term) (body : Effect R) :
    (forAll vars body).nestsProbabilistic = body.hasProbabilistic := by
  have split : (forAll vars body).nestsProbabilistic = (body.hasProbabilistic || body.nestsProbabilistic) := rfl
  rw [split, Bool.or_eq_left_iff_imp]
  exact body.nests_has

theorem nests_when (condition : Query R) (body : Effect R) :
    (when condition body).nestsProbabilistic = body.hasProbabilistic := by
  have split : (when condition body).nestsProbabilistic = (body.hasProbabilistic || body.nestsProbabilistic) := rfl
  rw [split, Bool.or_eq_left_iff_imp]
  exact body.nests_has

variable [Number R]

theorem branches_list_succeed_iff (es : List (Effect R)) (choices : List (R × List (Effect R))) :
    (∃ found, branchesOfList choices es = .ok found) ↔ ∀ e ∈ es, ∃ found, e.branches = .ok found := by
  induction es generalizing choices with
  | nil => simp [branchesOfList, pure_ok_iff]
  | cons e es ih =>
      simp only [branchesOfList, bind_ok_iff, List.forall_mem_cons]
      constructor
      · rintro ⟨found, next, first, rest⟩
        exact ⟨⟨next, first⟩, (ih _).mp ⟨found, rest⟩⟩
      · rintro ⟨⟨next, first⟩, others⟩
        obtain ⟨found, rest⟩ := (ih (cross choices next)).mpr others
        exact ⟨found, next, first, rest⟩

theorem branches_outcomes_succeed_iff (outcomes : List (R × Effect R)) :
    (∃ found, branchesOfOutcomes outcomes = .ok found) ↔
      ∀ outcome ∈ outcomes, ∃ found, outcome.2.branches = .ok found := by
  induction outcomes with
  | nil => simp [branchesOfOutcomes, pure_ok_iff]
  | cons outcome outcomes ih =>
      obtain ⟨p, e⟩ := outcome
      simp only [branchesOfOutcomes, bind_ok_iff, pure_ok_iff, List.forall_mem_cons, ← ih]
      constructor
      · rintro ⟨_, first, expanded, others, rest, -⟩
        exact ⟨⟨first, expanded⟩, others, rest⟩
      · rintro ⟨⟨first, expanded⟩, others, rest⟩
        exact ⟨_, first, expanded, others, rest, rfl⟩

theorem branches_succeed_iff (e : Effect R) : (∃ found, e.branches = .ok found) ↔ e.nestsProbabilistic = false := by
  induction e with
  | conj parts ih =>
      rw [nests_conj, List.any_eq_false]
      simp only [branches, bind_ok_iff, pure_ok_iff, Bool.not_eq_true]
      constructor
      · rintro ⟨_, choices, listed, -⟩ e member
        exact (ih e member).mp ((branches_list_succeed_iff parts _).mp ⟨choices, listed⟩ e member)
      · intro each
        have expandable : ∀ e ∈ parts, ∃ found, e.branches = .ok found := fun e member =>
          (ih e member).mpr (each e member)
        obtain ⟨choices, listed⟩ := (branches_list_succeed_iff parts [(Number.one, [])]).mpr expandable
        exact ⟨_, choices, listed, rfl⟩
  | forAll vars body _ =>
      rw [nests_for_all]
      simp only [branches_for_all, exists_and_left, exists_eq', and_true]
  | when condition body _ =>
      rw [nests_when]
      simp only [branches_when, exists_and_left, exists_eq', and_true]
  | probabilistic outcomes ih =>
      rw [nests_choice, List.any_eq_false]
      simp only [branches, bind_ok_iff, pure_ok_iff, Bool.not_eq_true]
      constructor
      · rintro ⟨_, inner, listed, -⟩ outcome member
        exact (ih outcome member).mp ((branches_outcomes_succeed_iff outcomes).mp ⟨inner, listed⟩ outcome member)
      · intro each
        have expandable : ∀ outcome ∈ outcomes, ∃ found, outcome.2.branches = .ok found := fun outcome member =>
          (ih outcome member).mpr (each outcome member)
        obtain ⟨inner, listed⟩ := (branches_outcomes_succeed_iff outcomes).mpr expandable
        exact ⟨_, inner, listed, rfl⟩
  | skip | add | delete | assign => exact iff_of_true ⟨_, rfl⟩ rfl

theorem expand_succeeds_iff (e : Effect R) :
    (∃ outcomes, e.expand = .ok outcomes) ↔ e.nestsProbabilistic = false := by
  rw [← branches_succeed_iff]
  exact map_succeeds_iff e.branches settle

theorem branches_fail (e : Effect R) : Fails (· = Error.of .nestedProbabilisticEffect) e.branches := by
  induction e with
  | conj parts ih =>
      have listed (choices : List (R × List (Effect R))) :
          Fails (· = Error.of .nestedProbabilisticEffect) (branchesOfList choices parts) := by
        induction parts generalizing choices with
        | nil => trivial
        | cons e es ihs =>
            obtain ⟨first, rest⟩ := List.forall_mem_cons.mp ih
            rw [branchesOfList]
            exact fails_bind _ _ first fun next => ihs rest _
      rw [branches]
      exact fails_bind _ _ (listed _) fun _ => trivial
  | forAll vars body _ =>
      rw [branches]
      split
      · exact rfl
      · trivial
  | when condition body _ =>
      rw [branches]
      split
      · exact rfl
      · trivial
  | probabilistic outcomes ih =>
      have listed : Fails (· = Error.of .nestedProbabilisticEffect) (branchesOfOutcomes outcomes) := by
        induction outcomes with
        | nil => trivial
        | cons outcome outcomes ihs =>
            obtain ⟨first, rest⟩ := List.forall_mem_cons.mp ih
            rw [branchesOfOutcomes]
            exact fails_bind _ _ first fun _ => fails_bind _ _ (ihs rest) fun _ => trivial
      rw [branches]
      exact fails_bind _ _ listed fun _ => trivial
  | skip | add | delete | assign => trivial

theorem expand_fails (e : Effect R) : Fails (· = Error.of .nestedProbabilisticEffect) e.expand :=
  (fails_map e.branches settle).mpr e.branches_fail

end Replan.Effect
