import Mathlib.Data.List.Chain
import Mathlib.Data.Set.Finite.Basic
import Mathlib.Order.WellFounded
import Replan.Proofs.Universe

set_option autoImplicit false

namespace Replan.Hierarchy

open Relation

def Link (h : Hierarchy) (child parent : String) : Prop := h.parent? child = some parent

def Acyclic (h : Hierarchy) : Prop := ∀ kind, ¬TransGen h.Link kind kind

def Closed (h : Hierarchy) : Prop := ∀ pair ∈ h.parents, h.contains pair.2 = true

theorem contains_iff (h : Hierarchy) (kind : String) :
    h.contains kind = true ↔ kind = "object" ∨ ∃ parent, h.Link kind parent := by
  rw [contains, Bool.or_eq_true, beq_iff_eq, Option.isSome_iff_exists]
  rfl

theorem climb_reached (h : Hierarchy) (seen : List String) (kind : String) (steps : Nat) (x : String)
    (member : x ∈ h.climb seen kind steps) : x ∈ seen ∨ ReflTransGen h.Link kind x := by
  induction steps generalizing seen kind with
  | zero => exact .inl member
  | succ steps ih =>
      rw [climb] at member
      cases found : h.parent? kind with
      | none =>
          rw [found] at member
          exact .inl member
      | some parent =>
          rw [found] at member
          simp only at member
          split at member
          · exact .inl member
          · rcases ih _ _ member with earlier | later
            · rcases List.mem_append.mp earlier with known | new
              · exact .inl known
              · rw [List.mem_singleton.mp new]
                exact .inr (.single found)
            · exact .inr (.head found later)

theorem climb_seen (h : Hierarchy) (seen : List String) (kind : String) (steps : Nat) :
    seen ⊆ h.climb seen kind steps := by
  induction steps generalizing seen kind with
  | zero => exact List.Subset.refl seen
  | succ steps ih =>
      rw [climb]
      split
      · exact List.Subset.refl seen
      · split
        · exact List.Subset.refl seen
        · exact List.Subset.trans (List.subset_append_left _ _) (ih _ _)

theorem climb_closed (h : Hierarchy) (before : List String) (kind : String) (steps : Nat)
    (climbing : h.Climbing before kind) (enough : h.parents.length ≤ before.length + steps)
    (closed : ∀ k ∈ before, ∀ parent, h.Link k parent → parent ∈ before ++ [kind]) :
    ∀ k ∈ h.climb (before ++ [kind]) kind steps, ∀ parent, h.Link k parent →
      parent ∈ h.climb (before ++ [kind]) kind steps := by
  induction steps generalizing before kind with
  | zero =>
      refine List.forall_mem_append.mpr ⟨closed, List.forall_mem_singleton.mpr fun parent link => ?_⟩
      exact absurd enough (Nat.not_le.mpr (climbing_short h before kind parent climbing link))
  | succ steps ih =>
      rw [climb]
      cases found : h.parent? kind with
      | none =>
          refine List.forall_mem_append.mpr ⟨closed, List.forall_mem_singleton.mpr fun parent link => ?_⟩
          rw [Link, found] at link
          cases link
      | some parent =>
          have only (other : String) (link : h.Link kind other) : parent = other :=
            Option.some.inj (found.symm.trans link)
          by_cases repeated : parent ∈ before ++ [kind]
          · simp only [if_pos repeated]
            refine List.forall_mem_append.mpr ⟨closed, List.forall_mem_singleton.mpr fun other link => ?_⟩
            exact only other link ▸ repeated
          · simp only [if_neg repeated]
            refine ih (before ++ [kind]) parent (climbing_next h before kind parent climbing found repeated) ?_ ?_
            · rw [List.length_append, List.length_singleton]
              omega
            · refine List.forall_mem_append.mpr ⟨fun k left other link => ?_,
                List.forall_mem_singleton.mpr fun other link => ?_⟩
              · exact List.mem_append_left _ (closed k left other link)
              · exact only other link ▸ List.mem_append_right _ (List.mem_singleton_self parent)

theorem mem_ancestors (h : Hierarchy) (kind x : String) : x ∈ h.ancestors kind ↔ ReflTransGen h.Link kind x := by
  constructor
  · intro member
    rcases climb_reached h [kind] kind _ x member with self | above
    · rw [List.mem_singleton.mp self]
    · exact above
  · intro above
    induction above with
    | refl => exact climb_seen h [kind] kind _ (List.mem_singleton_self kind)
    | tail _ link ih =>
        exact climb_closed h [] kind _ (climbing_start h kind) (Nat.le_add_left _ _) (by simp) _ ih _ link

-- The way up from a type: every type on it is followed by its parent, none stands on it twice, and it leads to all
-- that the links lead to.
structure Ascent (h : Hierarchy) (kind : String) (line : List String) : Prop where
  start : line.head? = some kind
  linked : line.IsChain h.Link
  distinct : line.Nodup
  reached : ∀ x, x ∈ line ↔ ReflTransGen h.Link kind x

theorem climb_ascends (h : Hierarchy) (before : List String) (kind : String) (steps : Nat)
    (linked : (before ++ [kind]).IsChain h.Link) (distinct : (before ++ [kind]).Nodup) :
    (h.climb (before ++ [kind]) kind steps).IsChain h.Link ∧ (h.climb (before ++ [kind]) kind steps).Nodup ∧
      (before ++ [kind]) <+: h.climb (before ++ [kind]) kind steps := by
  induction steps generalizing before kind with
  | zero => exact ⟨linked, distinct, List.prefix_rfl⟩
  | succ steps ih =>
      rw [climb]
      cases found : h.parent? kind with
      | none => exact ⟨linked, distinct, List.prefix_rfl⟩
      | some parent =>
          by_cases repeated : parent ∈ before ++ [kind]
          · simp only [if_pos repeated]
            exact ⟨linked, distinct, List.prefix_rfl⟩
          · simp only [if_neg repeated]
            have longer : (before ++ [kind] ++ [parent]).IsChain h.Link := by
              rw [List.isChain_append]
              refine ⟨linked, List.isChain_singleton parent, fun x last y first => ?_⟩
              rw [List.getLast?_concat, Option.mem_some_iff] at last
              rw [List.head?_cons, Option.mem_some_iff] at first
              rw [← last, ← first]
              exact found
            have new : (before ++ [kind] ++ [parent]).Nodup := by
              rw [← List.concat_eq_append, List.nodup_concat]
              exact ⟨repeated, distinct⟩
            obtain ⟨chain, once, begins⟩ := ih (before ++ [kind]) parent longer new
            exact ⟨chain, once, (List.prefix_append _ _).trans begins⟩

theorem ancestors_ascend (h : Hierarchy) (kind : String) : h.Ascent kind (h.ancestors kind) := by
  obtain ⟨linked, distinct, begins⟩ :=
    h.climb_ascends [] kind h.parents.length (List.isChain_singleton kind) (List.nodup_singleton kind)
  obtain ⟨rest, line⟩ := begins
  have start : (h.ancestors kind).head? = some kind := congrArg List.head? line.symm
  exact ⟨start, linked, distinct, h.mem_ancestors kind⟩

theorem circle_above (h : Hierarchy) (kind x : String) (circle : TransGen h.Link kind kind)
    (above : ReflTransGen h.Link kind x) : TransGen h.Link x x := by
  induction above with
  | refl => exact circle
  | @tail child parent _ link ih =>
      obtain ⟨other, first, back⟩ := TransGen.head'_iff.mp ih
      rw [Option.some.inj (first.symm.trans link)] at back
      exact TransGen.tail' back link

def Higher (h : Hierarchy) (kind : String) (a b : { x // x ∈ h.ancestors kind }) : Prop :=
  TransGen h.Link b.1 a.1

theorem higher_founded (h : Hierarchy) (acyclic : h.Acyclic) (kind : String) : WellFounded (h.Higher kind) := by
  have : Finite { x // x ∈ h.ancestors kind } := List.finite_toSet (h.ancestors kind)
  have : IsTrans _ (h.Higher kind) := ⟨fun _ _ _ first second => second.trans first⟩
  have : Std.Irrefl (h.Higher kind) := ⟨fun a => acyclic a.1⟩
  exact Finite.wellFounded_of_trans_of_irrefl (h.Higher kind)

theorem topmost_above (h : Hierarchy) (acyclic : h.Acyclic) (kind : String) :
    ∃ top, ReflTransGen h.Link kind top ∧ h.parent? top = none := by
  have self := (h.mem_ancestors kind kind).mpr .refl
  obtain ⟨⟨top, listed⟩, -, highest⟩ := (h.higher_founded acyclic kind).has_min Set.univ ⟨⟨kind, self⟩, trivial⟩
  have reached := (h.mem_ancestors kind top).mp listed
  refine ⟨top, reached, ?_⟩
  cases found : h.parent? top with
  | none => rfl
  | some parent =>
      have link : h.Link top parent := found
      have member : parent ∈ h.ancestors kind := (h.mem_ancestors kind parent).mpr (reached.tail link)
      exact absurd (.single link) (highest ⟨parent, member⟩ trivial)

theorem contains_above (h : Hierarchy) (closed : h.Closed) (kind x : String) (known : h.contains kind = true)
    (above : ReflTransGen h.Link kind x) : h.contains x = true := by
  induction above with
  | refl => exact known
  | tail _ link _ => exact closed _ (Substitution.lookup_mem h.parents _ _ link)

theorem acyclic_iff (h : Hierarchy) (closed : h.Closed) :
    h.Acyclic ↔ h.parent? "object" = none ∧ ∀ kind, h.contains kind = true → "object" ∈ h.ancestors kind := by
  constructor
  · intro acyclic
    have ends (kind : String) (known : h.contains kind = true) :
        "object" ∈ h.ancestors kind ∧ h.parent? "object" = none := by
      obtain ⟨top, above, parentless⟩ := h.topmost_above acyclic kind
      rcases (h.contains_iff top).mp (h.contains_above closed kind top known above) with rfl | ⟨parent, link⟩
      · exact ⟨(h.mem_ancestors kind _).mpr above, parentless⟩
      · rw [Link, parentless] at link
        cases link
    exact ⟨(ends "object" rfl).2, fun kind known => (ends kind known).1⟩
  · rintro ⟨topmost, leads⟩ kind circle
    obtain ⟨parent, link, -⟩ := TransGen.head'_iff.mp circle
    have known : h.contains kind = true := (h.contains_iff kind).mpr (.inr ⟨parent, link⟩)
    have above := (h.mem_ancestors kind _).mp (leads kind known)
    obtain ⟨other, onwards, -⟩ := TransGen.head'_iff.mp (h.circle_above kind _ circle above)
    rw [Link, topmost] at onwards
    cases onwards

end Replan.Hierarchy
