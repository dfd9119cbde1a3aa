import Replan.Effect.Expand
import Replan.Proofs.Effect.Vocabulary

set_option autoImplicit false

namespace Replan.Effect

open Results

variable {R : Type}

def AllWithin (v : Vocabulary R) (outcomes : List (R × Effect R)) : Prop :=
  ∀ outcome ∈ outcomes, outcome.2.Within v

variable [Number R]

theorem branches_for_all (vars : List Term) (body : Effect R) (found : List (R × Effect R)) :
    (forAll vars body).branches = .ok found ↔
      body.hasProbabilistic = false ∧ [(Number.one, forAll vars body)] = found := by
  rw [branches]
  cases body.hasProbabilistic <;> simp [pure_ok_iff]

theorem branches_when (condition : Query R) (body : Effect R) (found : List (R × Effect R)) :
    (when condition body).branches = .ok found ↔
      body.hasProbabilistic = false ∧ [(Number.one, when condition body)] = found := by
  rw [branches]
  cases body.hasProbabilistic <;> simp [pure_ok_iff]

section Each

variable (P : Effect R → Prop)

theorem cross_keeps (choices : List (R × List (Effect R))) (next : List (R × Effect R))
    (sofar : ∀ choice ∈ choices, ∀ e ∈ choice.2, P e) (each : ∀ branch ∈ next, P branch.2) :
    ∀ choice ∈ cross choices next, ∀ e ∈ choice.2, P e := by
  intro choice member e inChoice
  simp only [cross, List.mem_flatMap, List.mem_map] at member
  obtain ⟨before, known, branch, new, rfl⟩ := member
  rcases List.mem_append.mp inChoice with old | last
  · exact sofar before known e old
  · rw [List.mem_singleton.mp last]
    exact each branch new

theorem branches_list_keep (es : List (Effect R))
    (each : ∀ e ∈ es, ∀ found, e.branches = .ok found → ∀ branch ∈ found, P branch.2)
    (choices found : List (R × List (Effect R))) (sofar : ∀ choice ∈ choices, ∀ e ∈ choice.2, P e)
    (listed : branchesOfList choices es = .ok found) : ∀ choice ∈ found, ∀ e ∈ choice.2, P e := by
  induction es generalizing choices with
  | nil =>
      rw [branchesOfList, pure_ok_iff] at listed
      exact listed ▸ sofar
  | cons e es ih =>
      rw [branchesOfList, bind_ok_iff] at listed
      obtain ⟨next, expanded, listed⟩ := listed
      have here := each e List.mem_cons_self next expanded
      exact ih (fun f member => each f (List.mem_cons_of_mem e member)) (cross choices next)
        (cross_keeps P choices next sofar here) listed

theorem branches_outcomes_keep (outcomes : List (R × Effect R))
    (each : ∀ outcome ∈ outcomes, ∀ found, outcome.2.branches = .ok found → ∀ branch ∈ found, P branch.2)
    (found : List (R × Effect R)) (listed : branchesOfOutcomes outcomes = .ok found) :
    ∀ branch ∈ found, P branch.2 := by
  induction outcomes generalizing found with
  | nil =>
      rw [branchesOfOutcomes, pure_ok_iff] at listed
      subst listed
      simp
  | cons outcome outcomes ih =>
      obtain ⟨p, e⟩ := outcome
      simp only [branchesOfOutcomes, bind_ok_iff, pure_ok_iff] at listed
      obtain ⟨first, expanded, others, listed, rfl⟩ := listed
      intro branch member
      rcases List.mem_append.mp member with inFirst | inOthers
      · obtain ⟨unscaled, known, rfl⟩ := List.mem_map.mp inFirst
        exact each (p, e) List.mem_cons_self first expanded unscaled known
      · exact ih (fun f member => each f (List.mem_cons_of_mem _ member)) others listed branch inOthers

theorem complete_keeps (nothing : P skip) (massOf : R) (outcomes : List (R × Effect R))
    (each : ∀ outcome ∈ outcomes, P outcome.2) : ∀ outcome ∈ complete massOf outcomes, P outcome.2 := by
  simp only [complete]
  split
  · intro outcome member
    rcases List.mem_append.mp member with old | last
    · exact each outcome old
    · rw [List.mem_singleton.mp last]
      exact nothing
  · exact each

end Each

structure Expands (P Q : Effect R → Prop) : Prop where
  parts : ∀ es, P (conj es) → ∀ e ∈ es, P e
  choices : ∀ outcomes, P (probabilistic outcomes) → ∀ outcome ∈ outcomes, P outcome.2
  certain : ∀ e, P e → e.hasProbabilistic = false → Q e
  nothing : Q skip
  joined : ∀ es, (∀ e ∈ es, Q e) → Q (conj es).simplify

theorem branches_become {P Q : Effect R → Prop} (expands : Expands P Q) (e : Effect R) (holds : P e)
    (found : List (R × Effect R)) (listed : e.branches = .ok found) : ∀ branch ∈ found, Q branch.2 := by
  induction e generalizing found with
  | conj parts ih =>
      simp only [branches, bind_ok_iff, pure_ok_iff] at listed
      obtain ⟨choices, listed, rfl⟩ := listed
      have each (e : Effect R) (member : e ∈ parts) := ih e member (expands.parts parts holds e member)
      have known := branches_list_keep Q parts each _ choices (by simp) listed
      intro branch member
      obtain ⟨choice, inChoices, rfl⟩ := List.mem_map.mp member
      exact expands.joined choice.2 (known choice inChoices)
  | forAll vars body _ =>
      obtain ⟨certain, rfl⟩ := (branches_for_all vars body found).mp listed
      have whole := expands.certain _ holds ((has_probabilistic_for_all vars body).trans certain)
      exact List.forall_mem_singleton.mpr whole
  | when condition body _ =>
      obtain ⟨certain, rfl⟩ := (branches_when condition body found).mp listed
      have whole := expands.certain _ holds ((has_probabilistic_when condition body).trans certain)
      exact List.forall_mem_singleton.mpr whole
  | probabilistic outcomes ih =>
      simp only [branches, bind_ok_iff, pure_ok_iff] at listed
      obtain ⟨inner, listed, rfl⟩ := listed
      have each (outcome : R × Effect R) (member : outcome ∈ outcomes) :=
        ih outcome member (expands.choices outcomes holds outcome member)
      exact complete_keeps Q expands.nothing _ inner (branches_outcomes_keep Q outcomes each inner listed)
  | skip | add | delete | assign =>
      rw [branches, pure_ok_iff] at listed
      exact listed ▸ List.forall_mem_singleton.mpr (expands.certain _ holds rfl)

theorem credit_skip_effects (extra : R) (outcomes credited : List (R × Effect R))
    (found : creditSkip extra outcomes = some credited) :
    credited.map Prod.snd = outcomes.map Prod.snd := by
  induction outcomes generalizing credited with
  | nil => cases found
  | cons outcome outcomes ih =>
      obtain ⟨p, e⟩ := outcome
      rw [creditSkip] at found
      split at found
      · cases found
        rfl
      · obtain ⟨rest, later, rfl⟩ := Option.map_eq_some_iff.mp found
        simp only [List.map_cons, ih rest later]

theorem settle_effects (outcomes : List (R × Effect R)) :
    ∀ e ∈ (settle outcomes).map Prod.snd, e = skip ∨ e ∈ outcomes.map Prod.snd := by
  have kept : ∀ e ∈ (outcomes.filter fun outcome => Number.le Number.epsilon outcome.1).map Prod.snd,
      e ∈ outcomes.map Prod.snd := by
    intro e member
    obtain ⟨outcome, inKept, rfl⟩ := List.mem_map.mp member
    exact List.mem_map_of_mem (List.mem_filter.mp inKept).1
  unfold settle
  intro e member
  simp only at member
  split at member
  · split at member
    · next credited found =>
        rw [credit_skip_effects _ _ _ found] at member
        exact Or.inr (kept e member)
    · split at member
      · rw [List.map_append] at member
        rcases List.mem_append.mp member with old | last
        · exact Or.inr (kept e old)
        · exact Or.inl (by simpa using last)
      · exact Or.inr (kept e member)
  · exact Or.inr (kept e member)

theorem expand_becomes {P Q : Effect R → Prop} (expands : Expands P Q) (e : Effect R) (holds : P e)
    (outcomes : List (R × Effect R)) (expanded : e.expand = .ok outcomes) : ∀ outcome ∈ outcomes, Q outcome.2 := by
  rw [expand, map_ok_iff] at expanded
  obtain ⟨found, listed, rfl⟩ := expanded
  intro outcome member
  rcases settle_effects found outcome.2 (List.mem_map_of_mem member) with doesNothing | inFound
  · rw [doesNothing]
    exact expands.nothing
  · obtain ⟨origin, known, same⟩ := List.mem_map.mp inFound
    exact same ▸ branches_become expands e holds found listed origin known

theorem within_expands (v : Vocabulary R) (kept : ∀ q, v.operand q → v.operand q.simplify) :
    Expands (Within v) (Within v.certain) where
  parts es := (within_list v es).mp
  choices outcomes within := (within_outcomes v outcomes).mp within.2
  certain := certain_within v
  nothing := trivial
  joined es each := simplify_within v.certain kept _ ((within_list v.certain es).mpr each)

theorem expand_within (v : Vocabulary R) (kept : ∀ q, v.operand q → v.operand q.simplify) (e : Effect R)
    (within : e.Within v) (outcomes : List (R × Effect R)) (expanded : e.expand = .ok outcomes) :
    AllWithin v.certain outcomes :=
  expand_becomes (within_expands v kept) e within outcomes expanded

theorem simplify_deterministic (e : Effect R) (deterministic : e.hasProbabilistic = false) :
    e.simplify.hasProbabilistic = false := by
  have certain := certain_within (Vocabulary.anything R) e (within_anything e) deterministic
  exact within_deterministic _ id _ (simplify_within _ (fun _ => id) e certain)

theorem expand_deterministic (e : Effect R) (outcomes : List (R × Effect R))
    (expanded : e.expand = .ok outcomes) : ∀ outcome ∈ outcomes, outcome.2.hasProbabilistic = false := by
  intro outcome member
  have within := expand_within (Vocabulary.anything R) (fun _ => id) e (within_anything e) outcomes expanded
  exact within_deterministic _ id outcome.2 (within outcome member)

end Replan.Effect
