import Mathlib.Algebra.BigOperators.Ring.List
import Mathlib.Data.List.Forall2
import Mathlib.Data.List.Nodup
import Replan.Proofs.Effect.Structure
import Replan.Proofs.Number.Exact
import Replan.Proofs.Results

set_option autoImplicit false

namespace Replan

open Results

-- What the probabilistic effects picked, in the shape of the effect that they stand in.
inductive Decision where
  | certain
  | nothing
  | outcome (index : Nat) (inside : Decision)
  | parts (each : List Decision)

structure Resolution (R : Type) where
  decision : Decision
  weight : R
  leaves : List (Effect R)

namespace Effect

variable {R : Type}

def isConj : Effect R → Bool
  | conj _ => true
  | _ => false

variable {K : Type} [ExactNumber K]

def picked (index : Nat) (p : K) (r : Resolution K) : Resolution K :=
  ⟨.outcome index r.decision, p * r.weight, r.leaves⟩

def together (rs : List (Resolution K)) : Resolution K :=
  ⟨.parts (rs.map Resolution.decision), (rs.map Resolution.weight).prod, rs.flatMap Resolution.leaves⟩

inductive Resolves : Effect K → Resolution K → Prop where
  | certain (e : Effect K) (deterministic : e.hasProbabilistic = false) (single : e.isConj = false) :
      Resolves e ⟨.certain, 1, [e]⟩
  | conj (parts : List (Effect K)) (rs : List (Resolution K)) (each : List.Forall₂ Resolves parts rs) :
      Resolves (conj parts) (together rs)
  | outcome (outcomes : List (K × Effect K)) (index : Nat) (p : K) (e : Effect K) (r : Resolution K)
      (known : outcomes[index]? = some (p, e)) (inside : Resolves e r) :
      Resolves (probabilistic outcomes) (picked index p r)
  | nothing (outcomes : List (K × Effect K)) (lacking : Number.epsilon < 1 - mass outcomes) :
      Resolves (probabilistic outcomes) ⟨.nothing, 1 - mass outcomes, []⟩

def alone (e : Effect K) : List (Resolution K) := if e.hasProbabilistic then [] else [⟨.certain, 1, [e]⟩]

mutual
def resolutions : Effect K → List (Resolution K)
  | conj parts => (resolutionsList parts).map together
  | probabilistic outcomes =>
      resolutionsOutcomes 0 outcomes ++
        if Number.epsilon < 1 - mass outcomes then [⟨.nothing, 1 - mass outcomes, []⟩] else []
  | skip => alone skip
  | add fact => alone (add fact)
  | delete fact => alone (delete fact)
  | forAll vars body => alone (forAll vars body)
  | when condition body => alone (when condition body)
  | assign op fluent value => alone (assign op fluent value)

def resolutionsList : List (Effect K) → List (List (Resolution K))
  | [] => [[]]
  | e :: es => (resolutions e).flatMap fun r => (resolutionsList es).map (r :: ·)

def resolutionsOutcomes (start : Nat) : List (K × Effect K) → List (Resolution K)
  | [] => []
  | (p, e) :: rest => (resolutions e).map (picked start p) ++ resolutionsOutcomes (start + 1) rest
end

section Complete

theorem mem_alone (e : Effect K) (single : e.isConj = false) (plain : e.isProbabilistic = false) (r : Resolution K) :
    r ∈ e.alone ↔ e.Resolves r := by
  rw [alone]
  constructor
  · intro member
    split at member
    · cases member
    · next deterministic =>
        rw [List.mem_singleton.mp member]
        exact .certain e (Bool.eq_false_iff.mpr deterministic) single
  · intro resolves
    cases resolves with
    | certain _ deterministic _ => simp [deterministic]
    | conj => cases single
    | outcome | nothing => cases plain

theorem mem_resolutions_list (es : List (Effect K)) (each : ∀ e ∈ es, ∀ r, r ∈ e.resolutions ↔ e.Resolves r)
    (rs : List (Resolution K)) : rs ∈ resolutionsList es ↔ List.Forall₂ Resolves es rs := by
  induction es generalizing rs with
  | nil => rw [resolutionsList, List.mem_singleton, List.forall₂_nil_left_iff]
  | cons e es ih =>
      obtain ⟨here, others⟩ := List.forall_mem_cons.mp each
      simp only [resolutionsList, List.mem_flatMap, List.mem_map, List.forall₂_cons_left_iff, here, ih others]
      exact ⟨fun ⟨r, first, rest, later, same⟩ => ⟨r, rest, first, later, same.symm⟩,
        fun ⟨r, rest, first, later, same⟩ => ⟨r, first, rest, later, same.symm⟩⟩

theorem mem_resolutions_outcomes (outcomes : List (K × Effect K))
    (each : ∀ outcome ∈ outcomes, ∀ r, r ∈ outcome.2.resolutions ↔ outcome.2.Resolves r) (start : Nat)
    (r : Resolution K) : r ∈ resolutionsOutcomes start outcomes ↔
      ∃ index p e inner, outcomes[index]? = some (p, e) ∧ e.Resolves inner ∧ r = picked (start + index) p inner := by
  induction outcomes generalizing start with
  | nil => simp [resolutionsOutcomes]
  | cons outcome outcomes ih =>
      obtain ⟨p, e⟩ := outcome
      obtain ⟨here, others⟩ := List.forall_mem_cons.mp each
      rw [resolutionsOutcomes, List.mem_append, List.mem_map, ih others]
      constructor
      · rintro (⟨inner, first, rfl⟩ | ⟨index, q, f, inner, known, inside, rfl⟩)
        · exact ⟨0, p, e, inner, rfl, (here inner).mp first, rfl⟩
        · exact ⟨index + 1, q, f, inner, known, inside, by rw [add_right_comm, add_assoc]⟩
      · rintro ⟨index, q, f, inner, known, inside, rfl⟩
        cases index with
        | zero =>
            cases known
            exact .inl ⟨inner, (here inner).mpr inside, rfl⟩
        | succ index => exact .inr ⟨index, q, f, inner, known, inside, by rw [add_right_comm, add_assoc]⟩

theorem mem_resolutions (e : Effect K) (r : Resolution K) : r ∈ e.resolutions ↔ e.Resolves r := by
  induction e generalizing r with
  | conj parts ih =>
      rw [resolutions, List.mem_map]
      constructor
      · rintro ⟨rs, member, rfl⟩
        exact .conj parts rs ((mem_resolutions_list parts ih rs).mp member)
      · intro resolves
        cases resolves with
        | certain _ _ single => cases single
        | conj _ rs each => exact ⟨rs, (mem_resolutions_list parts ih rs).mpr each, rfl⟩
  | probabilistic outcomes ih =>
      rw [resolutions, List.mem_append, mem_resolutions_outcomes outcomes ih]
      simp only [Nat.zero_add]
      constructor
      · rintro (⟨index, p, e, inner, known, inside, rfl⟩ | lapse)
        · exact .outcome outcomes index p e inner known inside
        · split at lapse
          · next lacking =>
              rw [List.mem_singleton.mp lapse]
              exact .nothing outcomes lacking
          · cases lapse
      · intro resolves
        cases resolves with
        | certain _ deterministic _ => cases (has_probabilistic_choice outcomes).symm.trans deterministic
        | outcome _ index p e inner known inside => exact .inl ⟨index, p, e, inner, known, inside, rfl⟩
        | nothing _ lacking => exact .inr (by simp [lacking])
  | skip | add | delete | forAll | when | assign => exact mem_alone _ rfl rfl r

theorem resolutions_list_nodup (es : List (Effect K))
    (each : ∀ e ∈ es, (e.resolutions.map Resolution.decision).Nodup) :
    ((resolutionsList es).map (List.map Resolution.decision)).Nodup := by
  induction es with
  | nil => exact List.nodup_singleton _
  | cons e es ih =>
      obtain ⟨here, others⟩ := List.forall_mem_cons.mp each
      rw [resolutionsList, List.map_flatMap, List.nodup_flatMap]
      refine ⟨fun r _ => ?_, ?_⟩
      · have prefixed := (ih others).map (List.cons_injective (a := r.decision))
        rwa [List.map_map] at prefixed ⊢
      · rw [List.Nodup, List.pairwise_map] at here
        refine here.imp fun differ => List.disjoint_left.mpr fun ds first second => ?_
        simp only [List.map_map, List.mem_map] at first second
        obtain ⟨rs, -, rfl⟩ := first
        obtain ⟨rs', -, same⟩ := second
        exact differ (List.cons.inj same).1.symm

theorem resolutions_outcomes_nodup (outcomes : List (K × Effect K))
    (each : ∀ outcome ∈ outcomes, (outcome.2.resolutions.map Resolution.decision).Nodup) (start : Nat) :
    ((resolutionsOutcomes start outcomes).map Resolution.decision).Nodup := by
  induction outcomes generalizing start with
  | nil => exact List.nodup_nil
  | cons outcome outcomes ih =>
      obtain ⟨p, e⟩ := outcome
      obtain ⟨here, others⟩ := List.forall_mem_cons.mp each
      rw [resolutionsOutcomes, List.map_append, List.nodup_append]
      refine ⟨?_, ih others (start + 1), ?_⟩
      · have marked := here.map (fun a b same => (Decision.outcome.inj same).2 : Function.Injective (Decision.outcome start))
        rwa [List.map_map] at marked ⊢
      · intro d first d' later
        simp only [List.map_map, List.mem_map] at first later
        obtain ⟨inner, -, rfl⟩ := first
        obtain ⟨r, member, rfl⟩ := later
        obtain ⟨index, q, f, inner', -, -, rfl⟩ :=
          (mem_resolutions_outcomes outcomes (fun outcome _ => mem_resolutions outcome.2) (start + 1) r).mp member
        intro same
        have indices := (Decision.outcome.inj same).1
        omega

theorem resolutions_nodup (e : Effect K) : (e.resolutions.map Resolution.decision).Nodup := by
  have single (e : Effect K) : (e.alone.map Resolution.decision).Nodup := by
    rw [alone]
    split
    · exact List.nodup_nil
    · exact List.nodup_singleton _
  induction e with
  | conj parts ih =>
      have combined := (resolutions_list_nodup parts ih).map (fun a b same => Decision.parts.inj same)
      rw [List.map_map] at combined
      rwa [resolutions, List.map_map]
  | probabilistic outcomes ih =>
      rw [resolutions, List.map_append, List.nodup_append]
      refine ⟨resolutions_outcomes_nodup outcomes ih 0, ?_, ?_⟩
      · split
        · exact List.nodup_singleton _
        · exact List.nodup_nil
      · intro d first d' later same
        obtain ⟨r, member, rfl⟩ := List.mem_map.mp first
        obtain ⟨index, p, e, inner, -, -, rfl⟩ :=
          (mem_resolutions_outcomes outcomes (fun outcome _ => mem_resolutions outcome.2) 0 r).mp member
        split at later
        · rw [List.mem_singleton.mp later] at same
          cases same
        · cases later
  | skip | add | delete | forAll | when | assign => exact single _

theorem resolves_certain (e : Effect K) (r : Resolution K) (resolves : e.Resolves r) :
    ∀ leaf ∈ r.leaves, leaf.hasProbabilistic = false := by
  induction e generalizing r with
  | conj parts ih =>
      cases resolves with
      | certain _ _ single => cases single
      | conj _ rs each =>
          intro leaf member
          obtain ⟨r, known, inside⟩ := List.mem_flatMap.mp member
          obtain ⟨e, inParts, resolves⟩ := forall_two_right _ _ _ each r known
          exact ih e inParts r resolves leaf inside
  | probabilistic outcomes ih =>
      cases resolves with
      | certain _ deterministic _ => exact List.forall_mem_singleton.mpr deterministic
      | outcome _ index p e inner known inside => exact ih (p, e) (List.mem_of_getElem? known) inner inside
      | nothing => simp
  | skip | add | delete | forAll | when | assign =>
      cases resolves with
      | certain _ deterministic _ => exact List.forall_mem_singleton.mpr deterministic

end Complete

end Effect

end Replan
