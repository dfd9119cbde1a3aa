import Replan.Effect
import Replan.Proofs.Sorted

set_option autoImplicit false

namespace Replan

namespace Ground

instance : Std.Irrefl (· < · : Ground → Ground → Prop) where
  irrefl a less := by
    rcases less with byName | ⟨-, byArgs⟩
    · exact Std.Irrefl.irrefl a.name byName
    · exact Std.Irrefl.irrefl a.args byArgs

instance : Trans (· < · : Ground → Ground → Prop) (· < ·) (· < ·) where
  trans {a b c} first second := by
    rcases first with byName | ⟨sameName, byArgs⟩
    · rcases second with byName' | ⟨sameName', -⟩
      · exact Or.inl (Trans.trans byName byName')
      · exact Or.inl (sameName' ▸ byName)
    · rcases second with byName' | ⟨sameName', byArgs'⟩
      · exact Or.inl (sameName ▸ byName')
      · exact Or.inr ⟨sameName.trans sameName', Trans.trans byArgs byArgs'⟩

instance : Std.Antisymm (· < · : Ground → Ground → Prop) where
  antisymm a _ less more := absurd (Trans.trans less more) (Std.Irrefl.irrefl a)

instance : Std.Trichotomous (· < · : Ground → Ground → Prop) where
  trichotomous a b notLess notMore := by
    rcases Std.lt_trichotomy a.name b.name with less | sameName | more
    · exact absurd (Or.inl less) notLess
    · rcases Std.lt_trichotomy a.args b.args with less | sameArgs | more
      · exact absurd (Or.inr ⟨sameName, less⟩) notLess
      · cases a
        cases b
        simp_all
      · exact absurd (Or.inr ⟨sameName.symm, more⟩) notMore
    · exact absurd (Or.inl more) notMore

end Ground

namespace State

variable {R : Type}

theorem reward_is_not_cost : rewardAtom.ground ≠ totalCostAtom.ground := by decide

theorem holds_iff (s : State R) (f : Ground) (relational : f.name ≠ "=") : s.holds f = true ↔ f ∈ s.facts := by
  unfold holds
  split
  · exact absurd rfl relational
  · exact List.contains_iff_mem

theorem facts_set_value (s : State R) (fluent : Ground) (x : R) : (s.setValue fluent x).facts = s.facts := by
  by_cases isCost : fluent = totalCostAtom.ground
  · rw [setValue, if_pos isCost]
  · by_cases isReward : fluent = rewardAtom.ground
    · rw [setValue, if_neg isCost, if_pos isReward]
    · rw [setValue, if_neg isCost, if_neg isReward]

theorem world_set_value (s : State R) (fluent : Ground) (x : R) : (s.setValue fluent x).world = s.world := by
  by_cases isCost : fluent = totalCostAtom.ground
  · rw [setValue, if_pos isCost]
  · by_cases isReward : fluent = rewardAtom.ground
    · rw [setValue, if_neg isCost, if_pos isReward]
    · rw [setValue, if_neg isCost, if_neg isReward]

variable [Number R]

theorem of_facts_facts (facts : List Ground) (values : List (Ground × R)) (world : Universe) :
    (ofFacts facts values world).facts = Sorted.ofList facts := by
  have kept (s : State R) : (values.foldl (fun s entry => s.setValue entry.1 entry.2) s).facts = s.facts := by
    induction values generalizing s with
    | nil => rfl
    | cons entry values ih => rw [List.foldl_cons, ih, facts_set_value]
  exact kept _

theorem total_cost_value (s : State R) : s.totalCost = s.value totalCostAtom.ground := by
  simp [value]

theorem reward_value (s : State R) : s.reward = s.value rewardAtom.ground := by
  simp [value, reward_is_not_cost]

theorem value_set_value (s : State R) (fluent f : Ground) (x : R) :
    (s.setValue fluent x).value f = if fluent = f then x else s.value f := by
  by_cases same : fluent = f
  · subst same
    rw [if_pos rfl, setValue, value]
    split
    · rfl
    · split
      · rfl
      · simp [Sorted.get_put]
  · rw [if_neg same, setValue]
    split
    · next isCost => simp [value, isCost ▸ Ne.symm same]
    · split
      · next isReward => simp [value, isReward ▸ Ne.symm same]
      · simp [value, Sorted.get_put, same]

theorem of_facts_world (facts : List Ground) (values : List (Ground × R)) (world : Universe) :
    (ofFacts facts values world).world = world := by
  have kept (s : State R) : (values.foldl (fun s entry => s.setValue entry.1 entry.2) s).world = s.world := by
    induction values generalizing s with
    | nil => rfl
    | cons entry values ih => rw [List.foldl_cons, ih, world_set_value]
  exact kept _

theorem of_facts_value (facts : List Ground) (values : List (Ground × R)) (world : Universe) (f : Ground) :
    (ofFacts facts values world).value f = Sorted.latest f Number.zero values := by
  have last (s : State R) :
      (values.foldl (fun s entry => s.setValue entry.1 entry.2) s).value f = Sorted.latest f (s.value f) values := by
    induction values generalizing s with
    | nil => rfl
    | cons entry values ih => rw [List.foldl_cons, ih, value_set_value, Sorted.latest, Sorted.latest, List.foldl_cons]
  have atFirst : (⟨Sorted.ofList facts, [], Number.zero, Number.zero, world⟩ : State R).value f = Number.zero := by
    by_cases isCost : f = totalCostAtom.ground
    · rw [value, if_pos isCost]
    · by_cases isReward : f = rewardAtom.ground
      · rw [value, if_neg isCost, if_pos isReward]
      · rw [value, if_neg isCost, if_neg isReward]
        rfl
  rw [ofFacts, last, atFirst]

end State

namespace Changes

variable {R : Type}

def revise (c : Changes R) (facts : List Ground) : List Ground :=
  let remaining := c.deletes.foldl (fun facts fact => Sorted.erase fact facts) facts
  c.adds.foldl (fun facts fact => Sorted.insert fact facts) remaining

theorem mem_revise (c : Changes R) (facts : List Ground) (fact : Ground) :
    fact ∈ c.revise facts ↔ fact ∈ c.adds ∨ fact ∉ c.deletes ∧ fact ∈ facts := by
  rw [revise, Sorted.mem_insert_all, Sorted.mem_erase_all]

theorem revise_ordered (c : Changes R) (facts : List Ground) (ordered : facts.Pairwise (· < ·)) :
    (c.revise facts).Pairwise (· < ·) :=
  Sorted.insert_all_ordered _ _ (Sorted.erase_all_ordered _ _ ordered)

theorem delete_all (deletes : List Ground) (s : State R) :
    deletes.foldl State.delete s =
      { s with facts := deletes.foldl (fun facts fact => Sorted.erase fact facts) s.facts } := by
  induction deletes generalizing s with
  | nil => rfl
  | cons fact rest ih => rw [List.foldl_cons, ih, List.foldl_cons, State.delete]

theorem add_all (adds : List Ground) (s : State R) :
    adds.foldl State.add s =
      { s with facts := adds.foldl (fun facts fact => Sorted.insert fact facts) s.facts } := by
  induction adds generalizing s with
  | nil => rfl
  | cons fact rest ih => rw [List.foldl_cons, ih, List.foldl_cons, State.add]

variable [Number R]

def settle (f : Ground) (x : R) (assignments : List (AssignOp × Ground × R)) : R :=
  assignments.foldl (fun x change => if change.2.1 = f then change.1.apply x change.2.2 else x) x

theorem settle_append (f : Ground) (x : R) (first second : List (AssignOp × Ground × R)) :
    settle f x (first ++ second) = settle f (settle f x first) second := List.foldl_append

theorem assign_all (assignments : List (AssignOp × Ground × R)) (s : State R) :
    (assignments.foldl assignIn s).facts = s.facts ∧ (assignments.foldl assignIn s).world = s.world ∧
      ∀ f, (assignments.foldl assignIn s).value f = settle f (s.value f) assignments := by
  induction assignments generalizing s with
  | nil => exact ⟨rfl, rfl, fun f => rfl⟩
  | cons change rest ih =>
      obtain ⟨facts, world, values⟩ := ih (assignIn s change)
      rw [List.foldl_cons]
      refine ⟨facts.trans (State.facts_set_value _ _ _), world.trans (State.world_set_value _ _ _), fun f => ?_⟩
      rw [values, assignIn, State.value_set_value]
      by_cases same : change.2.1 = f
      · subst same
        simp [settle]
      · simp [settle, same]

theorem apply_to_facts (c : Changes R) (s : State R) : (c.applyTo s).facts = c.revise s.facts := by
  rw [applyTo, (assign_all _ _).1, delete_all, add_all]
  rfl

theorem apply_to_world (c : Changes R) (s : State R) : (c.applyTo s).world = s.world := by
  rw [applyTo, (assign_all _ _).2.1, delete_all, add_all]

theorem apply_to_value (c : Changes R) (s : State R) (f : Ground) :
    (c.applyTo s).value f = settle f (s.value f) c.assignments := by
  rw [applyTo, (assign_all _ _).2.2, delete_all, add_all]
  rfl

end Changes

end Replan
