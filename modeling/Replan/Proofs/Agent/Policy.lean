import Mathlib.Data.List.Nodup
import Replan.Agent.Simple

set_option autoImplicit false

namespace Replan

namespace Policy

variable (policy : Policy) (key other : List Ground)

theorem lookup_erase (differs : other ≠ key) : (policy.erase other).lookup? key = policy.lookup? key := by
  unfold lookup? erase
  rw [List.find?_filter]
  congr 2
  funext entry
  by_cases same : entry.1 = key
  · simp [same, differs.symm]
  · simp [same]

theorem lookup_erase_self : (policy.erase key).lookup? key = none := by
  simp [lookup?, erase]

theorem lookup_insert_self (action : Ground) : (policy.insert key action).lookup? key = some action := by
  simp [lookup?, insert]

theorem lookup_insert_other (action : Ground) (differs : other ≠ key) :
    (policy.insert other action).lookup? key = policy.lookup? key := by
  rw [← lookup_erase policy key other differs]
  simp [lookup?, insert, differs]

end Policy

namespace PlanNotes

def amend (noted : Option (Option Ground)) (action : Ground) : Option Ground :=
  match noted with
  | none => some action
  | some old => if old = some action then old else none

theorem lookup_add (notes : PlanNotes) (key : List Ground) (action : Ground) :
    (notes.add key action).lookup key = some (amend (notes.lookup key) action) := by
  induction notes with
  | nil => rw [add, List.lookup_cons_self, List.lookup_nil, amend]
  | cons entry rest ih =>
      obtain ⟨k, old⟩ := entry
      by_cases here : k = key
      · subst here
        rw [add, if_pos rfl, List.lookup_cons_self, List.lookup_cons_self, amend]
      · have differs : (key == k) = false := beq_false_of_ne (Ne.symm here)
        rw [add, if_neg here, List.lookup_cons, differs, List.lookup_cons, differs]
        exact ih

theorem lookup_add_other (notes : PlanNotes) (key other : List Ground) (action : Ground) (differs : other ≠ key) :
    (notes.add other action).lookup key = notes.lookup key := by
  have skipped : (key == other) = false := beq_false_of_ne differs.symm
  induction notes with
  | nil => rw [add, List.lookup_cons, skipped]
  | cons entry rest ih =>
      obtain ⟨k, old⟩ := entry
      by_cases here : k = other
      · subst here
        rw [add, if_pos rfl, List.lookup_cons, skipped, List.lookup_cons, skipped]
      · rw [add, if_neg here, List.lookup_cons, ih, List.lookup_cons]

theorem add_new (notes : PlanNotes) (key : List Ground) (action : Ground) (new : key ∉ notes.map Prod.fst) :
    notes.add key action = notes ++ [(key, some action)] := by
  induction notes with
  | nil => rfl
  | cons entry rest ih =>
      obtain ⟨differs, later⟩ := not_or.mp (List.mem_cons.not.mp new)
      rw [add, if_neg (Ne.symm differs), ih later]
      rfl

theorem add_known (notes : PlanNotes) (key : List Ground) (action : Ground) (known : key ∈ notes.map Prod.fst) :
    (notes.add key action).map Prod.fst = notes.map Prod.fst := by
  induction notes with
  | nil => cases known
  | cons entry rest ih =>
      by_cases here : entry.1 = key
      · rw [add, if_pos here, List.map_cons, List.map_cons, here]
      · have later : key ∈ rest.map Prod.fst := (List.mem_cons.mp known).resolve_left (Ne.symm here)
        rw [add, if_neg here, List.map_cons, List.map_cons, ih later]

theorem add_distinct (notes : PlanNotes) (key : List Ground) (action : Ground)
    (distinct : (notes.map Prod.fst).Nodup) : ((notes.add key action).map Prod.fst).Nodup := by
  by_cases known : key ∈ notes.map Prod.fst
  · rwa [add_known notes key action known]
  · rw [add_new notes key action known, List.map_append, List.nodup_append]
    refine ⟨distinct, List.nodup_singleton key, fun old noted new last same => known ?_⟩
    rwa [same, List.mem_singleton.mp last] at noted

theorem enter_other (notes : PlanNotes) (key : List Ground) (absent : key ∉ notes.map Prod.fst) (policy : Policy) :
    (notes.enter policy).lookup? key = policy.lookup? key := by
  induction notes generalizing policy with
  | nil => rfl
  | cons entry rest ih =>
      obtain ⟨differs, later⟩ := not_or.mp (List.mem_cons.not.mp absent)
      refine (ih later _).trans ?_
      dsimp only
      split
      · exact policy.lookup_insert_other key entry.1 _ (Ne.symm differs)
      · exact policy.lookup_erase key entry.1 (Ne.symm differs)

theorem enter_lookup (notes : PlanNotes) (distinct : (notes.map Prod.fst).Nodup) (key : List Ground) (policy : Policy) :
    (notes.enter policy).lookup? key = (notes.lookup key).getD (policy.lookup? key) := by
  induction notes generalizing policy with
  | nil => rfl
  | cons entry rest ih =>
      obtain ⟨k, noted⟩ := entry
      obtain ⟨absent, others⟩ := List.nodup_cons.mp distinct
      by_cases here : key = k
      · subst here
        rw [List.lookup_cons_self]
        refine (enter_other rest key absent _).trans ?_
        cases noted with
        | some action => exact policy.lookup_insert_self key action
        | none => exact policy.lookup_erase_self key
      · rw [List.lookup_cons, beq_false_of_ne here]
        refine (ih others _).trans (congrArg _ ?_)
        cases noted with
        | some action => exact policy.lookup_insert_other key k action (Ne.symm here)
        | none => exact policy.lookup_erase key k (Ne.symm here)

theorem enter_finds (notes : PlanNotes) (distinct : (notes.map Prod.fst).Nodup) (key : List Ground) (action : Ground)
    (noted : (key, some action) ∈ notes) (policy : Policy) : (notes.enter policy).lookup? key = some action := by
  induction notes generalizing policy with
  | nil => cases noted
  | cons entry rest ih =>
      obtain ⟨absent, others⟩ := List.nodup_cons.mp distinct
      rcases List.mem_cons.mp noted with rfl | later
      · exact (enter_other rest key absent _).trans (policy.lookup_insert_self key action)
      · exact ih others later _

end PlanNotes

end Replan
