import Replan.Proofs.Requirement
import Replan.Proofs.Source.EffectText
import Replan.Source.Sections

set_option autoImplicit false

namespace Replan

namespace Source

open Replan.Source.Parser

variable {R α : Type} {G : RequirementSet} {T : List Char → Prop}

theorem first_of_map {γ : Type} [DecidableEq γ] (f : γ → Parser R α) (x y : γ) (xs : List γ) {start stop : Place}
    {P : α → Prop} (member : y ∈ x :: xs) (misses : ∀ z ∈ x :: xs, z ≠ y → Misses (f z) start)
    (reads : Reads (f y) start stop P) : Reads (firstOf (f x) (xs.map f)) start stop P := by
  induction xs generalizing x with
  | nil =>
      rw [List.mem_singleton.mp member] at reads
      exact reads
  | cons z zs ih =>
      by_cases here : x = y
      · subst here
        exact first_of_here _ reads
      · refine first_of_later _ (misses x List.mem_cons_self here) (ih z ?_ fun w listed => ?_)
        · exact (List.mem_cons.mp member).resolve_left fun same => here same.symm
        · exact misses w (List.mem_cons_of_mem x listed)

theorem requirement_listed (r : Requirement) : r ∈ Requirement.all := by cases r <;> decide

theorem requirement_word (r : Requirement) : IsWord r.keyword ∧ Unbroken r.keyword := by cases r <;> decide

theorem keyword_injective (r s : Requirement) (same : r.keyword = s.keyword) : r = s := by
  have found : ∀ r ∈ Requirement.all, Requirement.ofKeyword? r.keyword = some r := by
    simp [Requirement.all, Requirement.ofKeyword?, Requirement.keyword]
  have first := found r (requirement_listed r)
  rw [same, found s (requirement_listed s)] at first
  exact (Option.some.inj first).symm

theorem takes_requirement (r : Requirement) :
    Takes (R := R) Ended G anyRequirement r.keyword.toList (· = r) := by
  have alternatives : anyRequirement (R := R) = firstOf (as Requirement.strips (keyword Requirement.strips.keyword))
      ((Requirement.all.drop 1).map fun r => as r (keyword r.keyword)) := rfl
  obtain ⟨word, -⟩ := requirement_word r
  have listed : r ∈ Requirement.strips :: Requirement.all.drop 1 := requirement_listed r
  intro tail ended
  have misses (z : Requirement) (other : z ≠ r) :
      Misses (R := R) (as z (keyword z.keyword)) ⟨skip (r.keyword.toList ++ tail), G⟩ :=
    misses_bind (keyword_misses_word z.keyword r.keyword tail (requirement_word z).2 word
      (fun same => other (keyword_injective z r same)) ended)
  have reads : Reads (R := R) (as r (keyword r.keyword)) ⟨skip (r.keyword.toList ++ tail), G⟩
      ⟨skip tail, G⟩ (· = r) :=
    reads_then_pure (fun _ => r) (takes_keyword r.keyword word.lower word.solid tail ended) fun _ _ => rfl
  rw [alternatives]
  exact first_of_map (fun r : Requirement => as r (keyword r.keyword)) Requirement.strips r _ listed
    (fun z _ => misses z) reads

theorem takes_requirements (rs : List Requirement) (nonempty : rs ≠ []) :
    Takes (R := R) Closing G (many1 anyRequirement) (rs.flatMap fun r => ' ' :: r.keyword.toList) (· = rs) := by
  refine takes_weaken (takes_many_one (S := fun r s => id s = id r) (fun tail closing => ?_) closing_ended
    (fun r _ => item_spaced _ (requirement_word r).1.solid) (fun r _ => takes_space (takes_requirement r)) nonempty) fun found same => ?_
  · rw [closing_skip tail closing]
    obtain ⟨rest, rfl⟩ := List.head?_eq_some_iff.mp closing
    have misses (r : Requirement) : Misses (R := R) (as r (keyword r.keyword)) ⟨')' :: rest, G⟩ :=
      misses_bind (keyword_misses_first _ ':' ')' rest (by cases r <;> rfl) (by decide))
    refine first_of_misses _ (misses .strips) fun q member => ?_
    obtain ⟨r, -, rfl⟩ := List.mem_map.mp member
    exact misses r
  · have equal := forall_two_map id id rs found same
    rwa [List.map_id, List.map_id] at equal

def Starts (ws : List String) (rest : List Char) : Prop :=
  Closing (skip rest) ∨ ∃ w ∈ ws, ∃ more, skip rest = '(' :: (w.toList ++ more) ∧ Ended more

theorem section_misses (k : String) (ws : List String) (rest : List Char) {f : Unit → Parser R α} {p : Parser R Unit}
    (starts : Starts ws rest) (words : ∀ w ∈ ws, IsWord w ∧ k ≠ w) (unbroken : Unbroken k)
    (gate : ∀ place, Misses (R := R) (keyword k) place → Misses p place) :
    Misses (parens (p >>= f)) ⟨skip rest, G⟩ := by
  rcases starts with closing | ⟨w, member, more, begins, ended⟩
  · refine parens_misses _ ?_
    rw [closing]
    decide
  · obtain ⟨word, other⟩ := words w member
    rw [begins]
    exact parens_misses_inside _ (misses_bind (gate _ (keyword_misses_word k w more unbroken word other ended)))

theorem clause_misses (k : String) (ws : List String) (rest : List Char) {body : Parser R α} (starts : Starts ws rest)
    (words : ∀ w ∈ ws, IsWord w ∧ k ≠ w) (unbroken : Unbroken k) : Misses (clause k body) ⟨skip rest, G⟩ :=
  section_misses k ws rest starts words unbroken fun _ => id

theorem licensed_misses (k : String) (ws : List String) (rest : List Char) {oneOf : RequirementSet} {body : Parser R α}
    (starts : Starts ws rest) (words : ∀ w ∈ ws, IsWord w ∧ k ≠ w) (unbroken : Unbroken k) :
    Misses (licensed k oneOf body) ⟨skip rest, G⟩ :=
  section_misses k ws rest starts words unbroken fun _ => requires_misses oneOf

theorem section_text (w : String) (items : List String) (nonempty : items ≠ []) (rest : List Char) :
    skip ((Domain.clause w items).toList ++ rest) =
      '(' :: ((w.toList ++ items.flatMap fun item => ' ' :: item.toList) ++ ')' :: '\n' :: rest) := by
  have shape : (Domain.clause w items).toList ++ rest =
      ' ' :: ' ' :: '(' :: ((w.toList ++ items.flatMap fun item => ' ' :: item.toList) ++ ')' :: '\n' :: rest) := by
    rw [Domain.clause, if_neg (by simpa using nonempty), String.toList_append, String.toList_append, joined_cons]
    simp
  rw [shape]
  rfl

theorem starts_section (w : String) (items : List String) (ws : List String) (rest : List Char)
    (starts : Starts ws rest) : Starts (w :: ws) ((Domain.clause w items).toList ++ rest) := by
  by_cases nonempty : items = []
  · subst nonempty
    rcases starts with closing | ⟨v, member, more⟩
    · exact .inl closing
    · exact .inr ⟨v, List.mem_cons_of_mem w member, more⟩
  · refine .inr ⟨w, List.mem_cons_self, _, by rw [section_text w items nonempty, List.append_assoc], ?_⟩
    exact spaced_items items (fun item => item.toList) ('\n' :: rest)

theorem reads_section {p : Parser R α} {P : Option α → Prop} (w : String) (items : List String) (rest : List Char)
    (present : items ≠ [] → Takes (fun _ => True) G p
      ('(' :: ((w.toList ++ items.flatMap fun item => ' ' :: item.toList) ++ [')'])) (fun a => P (some a)))
    (absent : items = [] → P none) (misses : Misses p ⟨skip rest, G⟩) :
    Reads (opt p) ⟨skip ((Domain.clause w items).toList ++ rest), G⟩ ⟨skip rest, G⟩ P := by
  by_cases nonempty : items = []
  · subst nonempty
    exact opt_nothing misses (absent rfl)
  · have reads := present nonempty ('\n' :: rest) trivial
    rw [skip_solid _ _ (paren_solid _), List.cons_append, List.append_assoc] at reads
    rw [section_text w items nonempty]
    exact opt_reads reads fun _ => id

end Source

end Replan
