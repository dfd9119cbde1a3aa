import Mathlib.Data.List.Nodup
import Mathlib.Data.List.Perm.Subperm
import Replan.Proofs.Agreement
import Replan.Universe

set_option autoImplicit false

namespace Replan

theorem Substitution.length_insert (σ : Substitution) (key value : String) :
    σ.length ≤ (σ.insert key value).length := by
  induction σ with
  | nil => exact Nat.zero_le _
  | cons pair rest ih =>
      rw [insert]
      split
      · exact Nat.le_refl _
      · exact Nat.succ_le_succ ih

theorem Substitution.lookup_mem (σ : Substitution) (key value : String) (found : σ.lookup? key = some value) :
    (key, value) ∈ σ := by
  obtain ⟨pair, first, rfl⟩ := Option.map_eq_some_iff.mp found
  have same : pair.1 = key := by simpa using List.find?_some first
  rw [← same]
  exact List.mem_of_find?_eq_some first

namespace Hierarchy

theorem parent_insert (h : Hierarchy) (child parent kind : String) :
    (h.insert child parent).parent? kind = if child = kind then some parent else h.parent? kind :=
  Substitution.lookup_insert h.parents child parent kind

structure Climbing (h : Hierarchy) (before : List String) (kind : String) : Prop where
  distinct : (before ++ [kind]).Nodup
  declared : ∀ k ∈ before, k ∈ h.parents.map Prod.fst

theorem climbing_start (h : Hierarchy) (kind : String) : h.Climbing [] kind :=
  ⟨List.nodup_singleton kind, by simp⟩

theorem climbing_declared (h : Hierarchy) (before : List String) (kind parent : String)
    (climbing : h.Climbing before kind) (found : h.parent? kind = some parent) :
    ∀ k ∈ before ++ [kind], k ∈ h.parents.map Prod.fst := by
  intro k member
  rcases List.mem_append.mp member with left | last
  · exact climbing.declared k left
  · rw [List.mem_singleton.mp last]
    exact List.mem_map_of_mem (Substitution.lookup_mem h.parents kind parent found)

theorem climbing_next (h : Hierarchy) (before : List String) (kind parent : String)
    (climbing : h.Climbing before kind) (found : h.parent? kind = some parent) (new : parent ∉ before ++ [kind]) :
    h.Climbing (before ++ [kind]) parent where
  distinct := List.nodup_append.mpr ⟨climbing.distinct, List.nodup_singleton parent, fun k left l last => by
    rw [List.mem_singleton.mp last]
    exact fun same => new (same ▸ left)⟩
  declared := climbing_declared h before kind parent climbing found

theorem climbing_short (h : Hierarchy) (before : List String) (kind parent : String)
    (climbing : h.Climbing before kind) (found : h.parent? kind = some parent) :
    before.length < h.parents.length := by
  have all := climbing_declared h before kind parent climbing found
  have bound := (List.subperm_of_subset climbing.distinct all).length_le
  rwa [List.length_append, List.length_map, List.length_singleton] at bound

theorem climb_step (h : Hierarchy) (before : List String) (kind : String) (steps : Nat)
    (climbing : h.Climbing before kind) (enough : h.parents.length ≤ before.length + steps) :
    h.climb (before ++ [kind]) kind (steps + 1) = h.climb (before ++ [kind]) kind steps := by
  induction steps generalizing before kind with
  | zero =>
      cases found : h.parent? kind with
      | none => simp [climb, found]
      | some parent => exact absurd enough (Nat.not_le.mpr (climbing_short h before kind parent climbing found))
  | succ steps ih =>
      rw [climb]
      conv_rhs => rw [climb]
      cases found : h.parent? kind with
      | none => rfl
      | some parent =>
          by_cases repeated : parent ∈ before ++ [kind]
          · simp only [if_pos repeated]
          · simp only [if_neg repeated]
            refine ih (before ++ [kind]) parent (climbing_next h before kind parent climbing found repeated) ?_
            rw [List.length_append, List.length_singleton]
            omega

theorem climb_enough (h : Hierarchy) (kind : String) (steps : Nat) (enough : h.parents.length ≤ steps) :
    h.climb [kind] kind steps = h.ancestors kind := by
  induction enough with
  | refl => rfl
  | @step steps more ih =>
      have step := climb_step h [] kind steps (climbing_start h kind) (by simpa using more)
      exact step.trans ih

theorem climb_insert (h : Hierarchy) (new parent : String) (unused : ∀ pair ∈ h.parents, pair.2 ≠ new)
    (seen : List String) (kind : String) (other : kind ≠ new) (steps : Nat) :
    (h.insert new parent).climb seen kind steps = h.climb seen kind steps := by
  induction steps generalizing seen kind with
  | zero => rfl
  | succ steps ih =>
      rw [climb, climb, parent_insert, if_neg (Ne.symm other)]
      cases found : h.parent? kind with
      | none => rfl
      | some above =>
          have known := unused _ (Substitution.lookup_mem h.parents kind above found)
          simp only [ih _ _ known]

theorem ancestors_insert (h : Hierarchy) (new parent kind : String)
    (unused : ∀ pair ∈ h.parents, pair.2 ≠ new) (other : kind ≠ new) :
    (h.insert new parent).ancestors kind = h.ancestors kind := by
  rw [ancestors, climb_insert h new parent unused _ kind other]
  exact climb_enough h kind _ (Substitution.length_insert h.parents new parent)

theorem ancestors_undeclared (h : Hierarchy) (kind : String) (undeclared : h.parent? kind = none) :
    h.ancestors kind = [kind] := by
  rw [ancestors]
  cases h.parents.length with
  | zero => rfl
  | succ steps => rw [climb, undeclared]

theorem ancestors_new (h : Hierarchy) (new : String) (notTop : new ≠ "object")
    (topmost : h.parent? "object" = none) : (h.insert new "object").ancestors new = [new, "object"] := by
  have parent : (h.insert new "object").parent? new = some "object" := by rw [parent_insert, if_pos rfl]
  have stops : (h.insert new "object").parent? "object" = none := by rw [parent_insert, if_neg notTop, topmost]
  have unseen : "object" ∉ [new] := by simpa using Ne.symm notTop
  rw [ancestors]
  cases fuel : (h.insert new "object").parents.length with
  | zero =>
      rw [List.length_eq_zero_iff] at fuel
      rw [parent?, fuel] at parent
      cases parent
  | succ steps =>
      rw [climb, parent]
      simp only [if_neg unseen]
      cases steps with
      | zero => rfl
      | succ steps => rw [climb, stops]; rfl

end Hierarchy

namespace Universe

theorem objects_of_known (u : Universe) (kind : Option String) (o : Term) (member : o ∈ u.objectsOf kind) :
    o ∈ u.objects := by
  cases kind with
  | none => exact member
  | some k =>
      rw [objectsOf] at member
      split at member
      · exact member
      · exact List.mem_of_mem_filter member

theorem mem_extended (u : Universe) (ys : List Term) (partials : List Substitution) (σ : Substitution)
    (member : σ ∈ ys.foldl
      (fun partials param =>
        partials.flatMap fun σ => (u.objectsOf param.kind).map fun o => σ.insert param.name o.name)
      partials) :
    ∃ τ ∈ partials, ∀ name, (name ∉ ys.map Term.name → σ.lookup? name = τ.lookup? name) ∧
      (name ∈ ys.map Term.name → ∃ o ∈ u.objects, σ.lookup? name = some o.name) := by
  induction ys generalizing partials with
  | nil => exact ⟨σ, member, fun name => ⟨fun _ => rfl, by simp⟩⟩
  | cons y ys ih =>
      obtain ⟨ρ, inserted, agree⟩ := ih _ member
      obtain ⟨τ, known, assigned⟩ := List.mem_flatMap.mp inserted
      obtain ⟨o, candidate, rfl⟩ := List.mem_map.mp assigned
      refine ⟨τ, known, fun name => ?_⟩
      obtain ⟨kept, given⟩ := agree name
      rw [Substitution.lookup_insert] at kept
      rw [List.map_cons, List.mem_cons, not_or]
      constructor
      · rintro ⟨other, earlier⟩
        rw [kept earlier, if_neg (Ne.symm other)]
      · intro assigned
        by_cases again : name ∈ ys.map Term.name
        · exact given again
        · have same : y.name = name := (assigned.resolve_right again).symm
          exact ⟨o, u.objects_of_known y.kind o candidate, by rw [kept again, if_pos same]⟩

theorem binding_lookup (u : Universe) (vars : List Term) (β : Substitution) (member : β ∈ u.bindings vars) (name : String) :
    (name ∉ vars.map Term.name → β.lookup? name = none) ∧
      (name ∈ vars.map Term.name → ∃ o ∈ u.objects, β.lookup? name = some o.name) := by
  obtain ⟨τ, start, known⟩ := u.mem_extended vars [[]] β member
  rw [List.mem_singleton.mp start] at known
  exact known name

theorem bindings_congr (first second : Universe) (vars : List Term)
    (same : ∀ x ∈ vars, first.objectsOf x.kind = second.objectsOf x.kind) :
    first.bindings vars = second.bindings vars := by
  have extend (partials : List Substitution) :
      vars.foldl
          (fun partials param =>
            partials.flatMap fun σ => (first.objectsOf param.kind).map fun o => σ.insert param.name o.name)
          partials =
        vars.foldl
          (fun partials param =>
            partials.flatMap fun σ => (second.objectsOf param.kind).map fun o => σ.insert param.name o.name)
          partials := by
    induction vars generalizing partials with
    | nil => rfl
    | cons x vars ih =>
        rw [List.foldl_cons, List.foldl_cons, same x List.mem_cons_self]
        exact ih (fun y member => same y (List.mem_cons_of_mem x member)) _
  exact extend [[]]

theorem distinct_added (given added : List Term) (p : Term → Bool) (dropped : ∀ o ∈ added, p o = false) :
    (distinct (given ++ added)).filter p = (distinct given).filter p := by
  have kept (known : List Term) :
      (added.foldl (fun kept o => if kept.any (Term.same o) then kept else kept ++ [o]) known).filter p =
        known.filter p := by
    induction added generalizing known with
    | nil => rfl
    | cons o added ih =>
        rw [List.foldl_cons, ih (fun o member => dropped o (List.mem_cons_of_mem _ member))]
        split
        · rfl
        · rw [List.filter_append, List.filter_singleton, dropped o List.mem_cons_self]
          exact List.append_nil _
  rw [distinct, distinct, List.foldl_append]
  exact kept _

theorem objects_of_enlarged (types types' : Hierarchy) (given added : List Term) (new kind : String)
    (notTop : new ≠ "object") (topmost : types.parent? "object" = none)
    (unused : ∀ pair ∈ types.parents, pair.1 ≠ new ∧ pair.2 ≠ new)
    (extended : types' = types ∨ types' = types.insert new "object")
    (kinds : ∀ o ∈ added, o.kind = some new) (below : kind ≠ "object") (other : kind ≠ new) :
    (ofObjects (given ++ added) types').objectsOf (some kind) = (ofObjects given types).objectsOf (some kind) := by
  have undeclared : types.parent? new = none := by
    cases found : types.parent? new with
    | none => rfl
    | some parent => exact absurd rfl (unused _ (Substitution.lookup_mem types.parents new parent found)).1
  have apart : kind ∉ types.ancestors new ∧ kind ∉ types'.ancestors new := by
    have before : kind ∉ types.ancestors new := by
      rw [Hierarchy.ancestors_undeclared types new undeclared]
      simpa using other
    refine ⟨before, ?_⟩
    rcases extended with rfl | rfl
    · exact before
    · rw [Hierarchy.ancestors_new types new notTop topmost]
      simp [other, below]
  have sameAncestors (declared : String) (differs : declared ≠ new) :
      types'.ancestors declared = types.ancestors declared := by
    rcases extended with rfl | rfl
    · rfl
    · exact Hierarchy.ancestors_insert types new "object" declared (fun pair member => (unused pair member).2) differs
  have belonging (o : Term) : (ofObjects (given ++ added) types').belongs kind o =
      (ofObjects given types).belongs kind o := by
    unfold belongs ofObjects
    cases o.kind with
    | none => rfl
    | some declared =>
        by_cases same : declared = new
        · subst same
          have first := mt List.contains_iff_mem.mp apart.1
          have second := mt List.contains_iff_mem.mp apart.2
          exact ((Bool.not_eq_true _).mp second).trans ((Bool.not_eq_true _).mp first).symm
        · simp only [sameAncestors declared same]
  have dropped : ∀ o ∈ added, (ofObjects given types).belongs kind o = false := by
    intro o member
    unfold belongs ofObjects
    rw [kinds o member]
    exact (Bool.not_eq_true _).mp (mt List.contains_iff_mem.mp apart.1)
  simp only [objectsOf, if_neg below]
  rw [List.filter_congr fun o _ => belonging o]
  exact distinct_added given added _ dropped

end Universe

end Replan
