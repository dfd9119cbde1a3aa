import Mathlib.Data.List.Basic
import Replan.Sorted

set_option autoImplicit false

namespace Replan.Sorted

variable {α β : Type}

theorem filter_single (xs : List α) (distinct : xs.Nodup) (p : α → Bool) (x : α)
    (only : ∀ y ∈ xs, p y = true ↔ y = x) (member : x ∈ xs) : xs.filter p = [x] := by
  induction xs with
  | nil => cases member
  | cons y xs ih =>
      obtain ⟨fresh, distinct⟩ := List.nodup_cons.mp distinct
      by_cases here : y = x
      · have none_later : xs.filter p = [] := by
          refine List.filter_eq_nil_iff.mpr fun z later kept => fresh ?_
          rw [here, ← (only z (List.mem_cons_of_mem y later)).mp kept]
          exact later
        rw [List.filter_cons_of_pos ((only y List.mem_cons_self).mpr here), none_later, here]
      · have later : x ∈ xs := (List.mem_cons.mp member).resolve_left (Ne.symm here)
        have dropped : ¬p y = true := fun kept => here ((only y List.mem_cons_self).mp kept)
        rw [List.filter_cons_of_neg dropped]
        exact ih distinct (fun z known => only z (List.mem_cons_of_mem y known)) later

variable [DecidableEq α]

theorem mem_erase (x y : α) (set : List α) : y ∈ erase x set ↔ y ≠ x ∧ y ∈ set := by
  rw [erase, List.mem_filter, and_comm, ne_comm]
  simp

theorem mem_erase_all (xs set : List α) (y : α) :
    y ∈ xs.foldl (fun set x => erase x set) set ↔ y ∉ xs ∧ y ∈ set := by
  induction xs generalizing set with
  | nil => simp
  | cons x xs ih =>
      rw [List.foldl_cons, ih, mem_erase, List.mem_cons]
      tauto

theorem filter_erase_all (p : α → Bool) (xs set : List α) (dropped : ∀ x ∈ xs, p x = false) :
    (xs.foldl (fun set x => erase x set) set).filter p = set.filter p := by
  induction xs generalizing set with
  | nil => rfl
  | cons x xs ih =>
      obtain ⟨out, others⟩ := List.forall_mem_cons.mp dropped
      rw [List.foldl_cons, ih _ others, erase, List.filter_filter]
      refine List.filter_congr fun y _ => ?_
      by_cases same : x = y
      · simp [← same, out]
      · simp [same]

theorem erase_all_ordered [LT α] (xs set : List α) (ordered : set.Pairwise (· < ·)) :
    (xs.foldl (fun set x => erase x set) set).Pairwise (· < ·) := by
  induction xs generalizing set with
  | nil => exact ordered
  | cons x xs ih => exact ih _ (ordered.filter _)

variable [LT α] [DecidableLT α]

theorem mem_insert (x y : α) (set : List α) : y ∈ insert x set ↔ y = x ∨ y ∈ set := by
  induction set with
  | nil => simp [insert]
  | cons z set ih =>
      rw [insert]
      split
      · next same => simp [same]
      · split
        · simp
        · rw [List.mem_cons, ih, List.mem_cons]
          exact or_left_comm

theorem mem_insert_all (xs set : List α) (y : α) :
    y ∈ xs.foldl (fun set x => insert x set) set ↔ y ∈ xs ∨ y ∈ set := by
  induction xs generalizing set with
  | nil => simp
  | cons x xs ih =>
      rw [List.foldl_cons, ih, mem_insert, List.mem_cons]
      tauto

theorem mem_of_list (xs : List α) (y : α) : y ∈ ofList xs ↔ y ∈ xs := by
  simp [ofList, mem_insert_all]

theorem filter_insert_all (p : α → Bool) (xs set : List α) (dropped : ∀ x ∈ xs, p x = false) :
    (xs.foldl (fun set x => insert x set) set).filter p = set.filter p := by
  have one (x : α) (out : p x = false) (set : List α) : (insert x set).filter p = set.filter p := by
    induction set with
    | nil => simp [insert, out]
    | cons y set ih =>
        rw [insert]
        split
        · rfl
        · split
          · simp [out]
          · rw [List.filter_cons, ih, ← List.filter_cons]
  induction xs generalizing set with
  | nil => rfl
  | cons x xs ih =>
      obtain ⟨out, others⟩ := List.forall_mem_cons.mp dropped
      rw [List.foldl_cons, ih _ others, one x out]

theorem get_put (key wanted : α) (value : β) (entries : List (α × β)) :
    get? wanted (put key value entries) = if key = wanted then some value else get? wanted entries := by
  induction entries with
  | nil =>
      by_cases same : key = wanted
      · simp [put, get?, same]
      · simp [put, get?, same]
  | cons entry entries ih =>
      have step (first : α × β) (rest : List (α × β)) :
          get? wanted (first :: rest) = if first.1 = wanted then some first.2 else get? wanted rest := by
        simp only [get?, List.find?_cons]
        by_cases same : first.1 = wanted <;> simp [same]
      rw [put]
      split
      · next replaced =>
          rw [step, step, ← replaced]
          by_cases same : key = wanted <;> simp [same]
      · split
        · rw [step]
        · next other _ =>
            rw [step, step, ih]
            by_cases same : key = wanted
            · simp [same, show entry.1 ≠ wanted from fun reached => other (same.trans reached.symm)]
            · simp [same]

omit [LT α] [DecidableLT α] in
theorem get_drop (key wanted : α) (other : key ≠ wanted) (entries : List (α × β)) :
    get? wanted (drop key entries) = get? wanted entries := by
  rw [get?, get?, drop, List.find?_filter]
  congr 2
  funext entry
  by_cases same : entry.1 = wanted
  · simp [same, Ne.symm other]
  · simp [same]

def latest (wanted : α) (x : β) (entries : List (α × β)) : β :=
  entries.foldl (fun x entry => if entry.1 = wanted then entry.2 else x) x

theorem latest_put (key wanted : α) (other : key ≠ wanted) (value x : β) (entries : List (α × β)) :
    latest wanted x (put key value entries) = latest wanted x entries := by
  have skipped (x : β) (rest : List (α × β)) : latest wanted x ((key, value) :: rest) = latest wanted x rest := by
    rw [latest, List.foldl_cons, if_neg other]
    rfl
  induction entries generalizing x with
  | nil => exact skipped x []
  | cons entry entries ih =>
      rw [put]
      split
      · next replaced =>
          rw [skipped, latest, latest, List.foldl_cons, if_neg (replaced ▸ other)]
      · split
        · exact skipped x _
        · exact ih _

omit [LT α] [DecidableLT α] in
theorem latest_drop (key wanted : α) (other : key ≠ wanted) (x : β) (entries : List (α × β)) :
    latest wanted x (drop key entries) = latest wanted x entries := by
  induction entries generalizing x with
  | nil => rfl
  | cons entry entries ih =>
      rw [drop, List.filter_cons]
      by_cases same : entry.1 = key
      · have kept : latest wanted x (entry :: entries) = latest wanted x entries := by
          rw [latest, List.foldl_cons, if_neg (same ▸ other)]
          rfl
        rw [kept, same, decide_eq_true rfl, Bool.not_true, if_neg Bool.false_ne_true]
        exact ih x
      · rw [decide_eq_false same, Bool.not_false, if_pos rfl]
        exact ih _

omit [LT α] [DecidableLT α] in
theorem latest_get (wanted : α) (x : β) (entries : List (α × β)) (distinct : (entries.map Prod.fst).Nodup) :
    latest wanted x entries = (get? wanted entries).getD x := by
  induction entries generalizing x with
  | nil => rfl
  | cons entry entries ih =>
      obtain ⟨fresh, distinct⟩ := List.nodup_cons.mp distinct
      rw [latest, List.foldl_cons, get?, List.find?_cons]
      by_cases same : entry.1 = wanted
      · have absent : get? wanted entries = none := by
          rw [get?, Option.map_eq_none_iff, List.find?_eq_none]
          refine fun other member again => fresh ?_
          rw [same, ← of_decide_eq_true again]
          exact List.mem_map_of_mem member
        rw [if_pos same, decide_eq_true same]
        exact (ih entry.2 distinct).trans (by rw [absent]; rfl)
      · rw [if_neg same, decide_eq_false same]
        exact ih x distinct

theorem put_keys (key : α) (value : β) (entries : List (α × β)) :
    (put key value entries).map Prod.fst = insert key (entries.map Prod.fst) := by
  induction entries with
  | nil => rfl
  | cons entry entries ih =>
      rw [put, List.map_cons, insert]
      split
      · next same => rw [List.map_cons, same]
      · split
        · rfl
        · rw [List.map_cons, ih]

section Ordered

variable [Trans (· < · : α → α → Prop) (· < ·) (· < ·)] [Std.Trichotomous (· < · : α → α → Prop)]

theorem insert_ordered (x : α) (set : List α) (ordered : set.Pairwise (· < ·)) :
    (insert x set).Pairwise (· < ·) := by
  induction set with
  | nil => exact List.pairwise_singleton _ x
  | cons y set ih =>
      obtain ⟨above, rest⟩ := List.pairwise_cons.mp ordered
      rw [insert]
      split
      · exact ordered
      · next differs =>
          split
          · next below =>
              refine List.pairwise_cons.mpr ⟨fun z member => ?_, ordered⟩
              rcases List.mem_cons.mp member with rfl | later
              · exact below
              · exact Trans.trans below (above z later)
          · next notBelow =>
              refine List.pairwise_cons.mpr ⟨fun z member => ?_, ih rest⟩
              rcases (mem_insert x z set).mp member with rfl | later
              · rcases Std.lt_trichotomy y z with less | same | more
                · exact less
                · exact absurd same.symm differs
                · exact absurd more notBelow
              · exact above z later

theorem insert_all_ordered (xs set : List α) (ordered : set.Pairwise (· < ·)) :
    (xs.foldl (fun set x => insert x set) set).Pairwise (· < ·) := by
  induction xs generalizing set with
  | nil => exact ordered
  | cons x xs ih => exact ih _ (insert_ordered x set ordered)

theorem of_list_ordered (xs : List α) : (ofList xs).Pairwise (· < ·) :=
  insert_all_ordered xs [] List.Pairwise.nil

end Ordered

section Last

variable [Trans (· < · : α → α → Prop) (· < ·) (· < ·)] [Std.Irrefl (· < · : α → α → Prop)]

theorem put_last (key : α) (value : β) (entries : List (α × β)) (above : ∀ entry ∈ entries, entry.1 < key) :
    put key value entries = entries ++ [(key, value)] := by
  induction entries with
  | nil => rfl
  | cons entry entries ih =>
      obtain ⟨less, others⟩ := List.forall_mem_cons.mp above
      have differs : key ≠ entry.1 := by
        rintro rfl
        exact Std.Irrefl.irrefl entry.1 less
      have notBelow : ¬key < entry.1 := fun more => Std.Irrefl.irrefl key (Trans.trans more less)
      rw [put, if_neg differs, if_neg notBelow, ih others, List.cons_append]

theorem insert_last (x : α) (set : List α) (above : ∀ y ∈ set, y < x) : insert x set = set ++ [x] := by
  induction set with
  | nil => rfl
  | cons y set ih =>
      obtain ⟨less, others⟩ := List.forall_mem_cons.mp above
      have differs : x ≠ y := by
        rintro rfl
        exact Std.Irrefl.irrefl x less
      have notBelow : ¬x < y := fun more => Std.Irrefl.irrefl x (Trans.trans more less)
      rw [insert, if_neg differs, if_neg notBelow, ih others, List.cons_append]

end Last

end Replan.Sorted
