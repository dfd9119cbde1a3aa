import Replan.Proofs.Effect.Meaning
import Replan.Proofs.Effect.Throughout
import Replan.Proofs.Query.Reading

set_option autoImplicit false

namespace Replan

-- Queries that read no fluent, compare nothing but numeric expressions, and have an object for every variable under an
-- existential quantifier.
def Vocabulary.settled (R : Type) (world : Universe) : Vocabulary R where
  fluent _ := False
  forSome vars := ∀ x ∈ vars, world.objectsOf x.kind ≠ []
  operand := Query.Numeric

theorem Vocabulary.settled_below_populated (R : Type) (world : Universe) :
    (settled R world).Below (populated R world) :=
  ⟨fun _ _ => trivial, fun _ _ => trivial, fun _ _ => trivial, fun _ => id, fun _ _ => trivial⟩

theorem Vocabulary.settled_below_fluentless (R : Type) (world : Universe) :
    (settled R world).Below (fluentless R) :=
  ⟨fun _ _ => trivial, fun _ => id, fun _ _ => trivial, fun _ _ => trivial, fun _ _ => trivial⟩

theorem Query.within_settled (R : Type) (world : Universe) (q : Query R)
    (numeric : q.Within (Vocabulary.numericOperands R)) (fluentless : q.Within (Vocabulary.fluentless R))
    (populated : q.Within (Vocabulary.populated R world)) : q.Within (Vocabulary.settled R world) := by
  have below : (((Vocabulary.numericOperands R).both (Vocabulary.fluentless R)).both (Vocabulary.populated R world)).Below
      (Vocabulary.settled R world) :=
    ⟨fun _ _ => trivial, fun _ reads => reads.1.2, fun _ _ => trivial, fun _ ranges => ranges.2, fun _ isNumber => isNumber.1.1⟩
  exact within_below _ _ below q (within_both _ _ q (within_both _ _ q numeric fluentless) populated)

theorem Query.settled_folds (R : Type) [Number R] (world : Universe) : Folds (Vocabulary.settled R world) where
  closed _ _ _ left right := ⟨left, right⟩
  same q numeric within s σs := by
    have fluentless := within_below _ _ (Vocabulary.settled_below_fluentless R world) q within
    obtain ⟨x, constant, value⟩ := fluentless_value q numeric fluentless
    rw [constant, value s σs]
    rfl

namespace Effect

variable {R : Type}

def Allowed (condition : Query R → Prop) (added : Atom → Prop) : Effect R → Prop
  | when q _ => condition q
  | add fact => added fact
  | _ => True

def Parts (condition : Query R → Prop) (added : Atom → Prop) (e : Effect R) : Prop :=
  ∀ node ∈ e.nodes, node.Allowed condition added

section Shape

variable (condition : Query R → Prop) (added : Atom → Prop)

theorem allowed_shallow : Shallow (Allowed condition added) where
  skip := trivial
  conj _ := trivial
  forAll _ _ _ := id
  when _ _ _ := id
  probabilistic _ := trivial

theorem parts_conj (parts : List (Effect R)) :
    (conj parts).Parts condition added ↔ ∀ e ∈ parts, e.Parts condition added :=
  throughout_conj (allowed_shallow condition added) parts

theorem parts_for_all (vars : List Term) (body : Effect R) :
    (forAll vars body).Parts condition added ↔ body.Parts condition added :=
  (throughout_for_all vars body).trans (iff_of_eq (true_and _))

theorem parts_when (q : Query R) (body : Effect R) :
    (when q body).Parts condition added ↔ condition q ∧ body.Parts condition added :=
  throughout_when q body

theorem parts_unless (dropped : Atom) (e : Effect R) (parts : e.Parts condition added) :
    (e.mapAssignments (unlessOf dropped)).Parts condition added := by
  refine map_assignments_throughout (allowed_shallow condition added) _ (fun op fluent value _ => ?_) e parts
  rw [unlessOf]
  split
  · exact throughout_skip (allowed_shallow condition added)
  · exact (throughout_assign op fluent value).mpr trivial

end Shape

variable [Number R]

theorem parts_expand (condition : Query R → Prop) (added : Atom → Prop) (kept : ∀ q, condition q → condition q.simplify) :
    Expands (Parts condition added) (Parts condition added) :=
  throughout_expands (allowed_shallow condition added) (fun q _ => kept q) fun _ _ _ _ => trivial

theorem gathered_additions (condition : Query R → Prop) (added : Atom → Prop) (e : Effect R)
    (parts : e.Parts condition added) (s : State R) (σs : List Substitution) :
    ∀ fact ∈ (e.gathered s σs).adds, ∃ a, added a ∧ fact.name = a.name := by
  have joined (cs : List (Changes R)) (each : ∀ c ∈ cs, ∀ fact ∈ c.adds, ∃ a, added a ∧ fact.name = a.name) :
      ∀ fact ∈ (Changes.join cs).adds, ∃ a, added a ∧ fact.name = a.name := by
    intro fact member
    obtain ⟨c, known, inChanges⟩ := List.mem_flatMap.mp member
    exact each c known fact inChanges
  induction e generalizing σs with
  | add a =>
      exact List.forall_mem_singleton.mpr ⟨a, parts _ List.mem_cons_self, Atom.bind_all_name σs a⟩
  | conj es ih =>
      rw [gathered, gathered_list]
      refine joined _ fun c member => ?_
      obtain ⟨e, known, rfl⟩ := List.mem_map.mp member
      exact ih e known ((parts_conj condition added es).mp parts e known) σs
  | forAll vars body ih =>
      rw [gathered]
      refine joined _ fun c member => ?_
      obtain ⟨β, -, rfl⟩ := List.mem_map.mp member
      exact ih ((parts_for_all condition added vars body).mp parts) _
  | when q body ih =>
      rw [gathered]
      split
      · exact ih ((parts_when condition added q body).mp parts).2 σs
      · exact joined [] (by simp)
  | skip | probabilistic => exact joined [] (by simp)
  | delete | assign => simp [gathered]

def everything (_ : Ground) : Prop := True

theorem no_values {a b : Changes R} (adds : a.adds = b.adds) (deletes : a.deletes = b.deletes) :
    Changes.Agree everything a b := ⟨adds, deletes, fun _ seen => absurd trivial seen⟩

theorem settled_simplify (added : Atom → Prop) (e : Effect R) (certain : e.hasProbabilistic = false) (s : State R)
    (parts : e.Parts (·.Within (Vocabulary.settled R s.world)) added) (σs : List Substitution) :
    Changes.Agree everything (e.simplify.gathered s σs) (e.gathered s σs) := by
  refine simplify_gathered_by everything s e certain (fun q body found σs => ?_) (fun op fluent value _ σs => ?_) σs
  · have settled : q.Within _ := parts _ found
    exact Query.folded_truth _ (Query.settled_folds R s.world) q s σs settled
      (Query.within_below _ _ (Vocabulary.settled_below_populated R s.world) q settled)
  · cases op with
    | assign => exact no_values rfl rfl
    | increase | decrease | scaleUp | scaleDown =>
        rw [set]
        split <;> exact no_values rfl rfl

end Effect

structure State.Matches {R : Type} (s t : State R) : Prop where
  facts : s.facts = t.facts
  world : s.world = t.world

section Matches

variable {R : Type} [Number R] {s t : State R} (same : s.Matches t)

include same

theorem State.Matches.reads (v : Vocabulary R) (fluentless : ∀ a, ¬v.fluent a) : s.ReadAlike v t where
  facts a σs _ := by
    unfold State.holds
    rw [same.facts]
  fluents a σs reads := absurd reads (fluentless a)
  universal vars _ := by rw [same.world]
  existential vars _ := by rw [same.world]

theorem Effect.matching_gathered (v : Vocabulary R) (fluentless : ∀ a, ¬v.fluent a) (added : Atom → Prop) (e : Effect R)
    (parts : e.Parts (·.Within v) added) (σs : List Substitution) :
    Changes.Agree everything (e.gathered s σs) (e.gathered t σs) := by
  induction e generalizing σs with
  | skip | add | delete | probabilistic => exact Changes.agree_refl _
  | conj es ih =>
      rw [gathered, gathered, gathered_list, gathered_list]
      exact Changes.agree_join es _ _ fun e member => ih e member ((parts_conj _ _ es).mp parts e member) σs
  | forAll vars body ih =>
      rw [gathered, gathered, same.world]
      exact Changes.agree_join _ _ _ fun β _ => ih ((parts_for_all _ _ vars body).mp parts) _
  | when q body ih =>
      obtain ⟨here, inside⟩ := (parts_when _ _ q body).mp parts
      rw [gathered, gathered, q.eval_alike v s t (same.reads v fluentless) here]
      split
      · exact ih inside σs
      · exact Changes.agree_refl _
  | assign op fluent value => exact no_values rfl rfl

end Matches

end Replan
