import Replan.Requirement

set_option autoImplicit false

namespace Replan.RequirementSet

theorem of_list_same (a b : List Requirement) (same : ∀ r, r ∈ a ↔ r ∈ b) : ofList a = ofList b := by
  refine List.filter_congr fun r _ => ?_
  rw [Bool.eq_iff_iff, List.contains_iff_mem, List.contains_iff_mem]
  exact same r

theorem mem_of_list (a : List Requirement) (r : Requirement) : r ∈ ofList a ↔ r ∈ a := by
  rw [ofList, List.mem_filter, List.contains_iff_mem]
  have listed : r ∈ Requirement.all := by cases r <;> decide
  exact and_iff_right listed

theorem of_list_again (a : List Requirement) : ofList (ofList a) = ofList a :=
  of_list_same _ _ (mem_of_list a)

theorem closure_of_list (a : List Requirement) : closure (ofList a) = closure a := by
  refine of_list_same _ _ fun r => ?_
  simp only [List.mem_flatMap, mem_of_list]

theorem union_nothing (a : List Requirement) : union [] (closure a) = closure a := of_list_again _

theorem mem_union (a b : RequirementSet) (r : Requirement) : r ∈ union a b ↔ r ∈ a ∨ r ∈ b := by
  rw [union, mem_of_list, List.mem_append]

theorem mem_diff (a b : RequirementSet) (r : Requirement) : r ∈ diff a b ↔ r ∈ a ∧ r ∉ b := by
  simp [diff]

end Replan.RequirementSet
