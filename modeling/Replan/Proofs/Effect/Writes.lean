import Replan.Proofs.Effect.Meaning
import Replan.Proofs.Effect.Throughout

set_option autoImplicit false

namespace Replan

structure Writable where
  facts : String → Prop
  fluents : String → Prop

namespace Changes

variable {R : Type}

structure Writes (w : Writable) (c : Changes R) : Prop where
  adds : ∀ fact ∈ c.adds, w.facts fact.name
  deletes : ∀ fact ∈ c.deletes, w.facts fact.name
  assignments : ∀ change ∈ c.assignments, w.fluents change.2.1.name

theorem join_writes (w : Writable) (cs : List (Changes R)) (each : ∀ c ∈ cs, c.Writes w) : (join cs).Writes w := by
  refine ⟨?_, ?_, ?_⟩
  · intro fact member
    obtain ⟨c, known, inChanges⟩ := List.mem_flatMap.mp member
    exact (each c known).adds fact inChanges
  · intro fact member
    obtain ⟨c, known, inChanges⟩ := List.mem_flatMap.mp member
    exact (each c known).deletes fact inChanges
  · intro change member
    obtain ⟨c, known, inChanges⟩ := List.mem_flatMap.mp member
    exact (each c known).assignments change inChanges

theorem revise_unwritten (w : Writable) (c : Changes R) (writes : c.Writes w) (name : String)
    (unwritten : ¬w.facts name) (facts : List Ground) :
    (c.revise facts).filter (fun fact => fact.name == name) = facts.filter fun fact => fact.name == name := by
  have others (changed : List Ground) (written : ∀ fact ∈ changed, w.facts fact.name) (fact : Ground)
      (member : fact ∈ changed) : (fact.name == name) = false := by
    by_cases same : fact.name = name
    · exact absurd (same ▸ written fact member) unwritten
    · exact beq_false_of_ne same
  rw [revise, Sorted.filter_insert_all _ _ _ (others c.adds writes.adds),
    Sorted.filter_erase_all _ _ _ (others c.deletes writes.deletes)]

end Changes

namespace Effect

variable {R : Type}

def Targets (w : Writable) : Effect R → Prop
  | add fact | delete fact => w.facts fact.name
  | assign _ fluent _ => w.fluents fluent.name
  | _ => True

def Writes (w : Writable) (e : Effect R) : Prop := ∀ node ∈ e.nodes, node.Targets w

theorem writes_iff (w : Writable) (e : Effect R) :
    e.Writes w ↔ (∀ name ∈ e.modifiedPredicates, w.facts name) ∧ ∀ name ∈ e.modifiedFunctions, w.fluents name := by
  have targets (node : Effect R) : node.Targets w ↔ (∀ name, node.changedFact? = some name → w.facts name) ∧
      ∀ name, node.assignedFluent? = some name → w.fluents name := by
    cases node <;> simp [Targets, changedFact?, assignedFluent?]
  simp only [Writes, targets, modifiedPredicates, modifiedFunctions, Sorted.mem_of_list, List.mem_filterMap]
  grind

theorem targets_shallow (w : Writable) : Shallow (Targets w : Effect R → Prop) where
  skip := trivial
  conj _ := trivial
  forAll _ _ _ := id
  when _ _ _ := id
  probabilistic _ := trivial

theorem writes_conj (w : Writable) (parts : List (Effect R)) :
    (conj parts).Writes w ↔ ∀ e ∈ parts, e.Writes w :=
  throughout_conj (targets_shallow w) parts

theorem writes_for_all (w : Writable) (vars : List Term) (body : Effect R) :
    (forAll vars body).Writes w ↔ body.Writes w :=
  (throughout_for_all vars body).trans (iff_of_eq (true_and _))

theorem writes_when (w : Writable) (condition : Query R) (body : Effect R) :
    (when condition body).Writes w ↔ body.Writes w :=
  (throughout_when condition body).trans (iff_of_eq (true_and _))

theorem writes_choice (w : Writable) (outcomes : List (R × Effect R)) :
    (probabilistic outcomes).Writes w ↔ ∀ outcome ∈ outcomes, outcome.2.Writes w :=
  throughout_choice (targets_shallow w) outcomes

theorem writes_bind (w : Writable) (e : Effect R) (σ : Substitution) : (e.bind σ).Writes w ↔ e.Writes w := by
  induction e generalizing σ with
  | skip => rfl
  | add a => simp [bind, Writes, nodes, Targets, Atom.bind]
  | delete a => simp [bind, Writes, nodes, Targets, Atom.bind]
  | conj parts ih =>
      rw [bind, bind_list, writes_conj, writes_conj, List.forall_mem_map]
      exact forall₂_congr fun e member => ih e member σ
  | forAll vars body ih => rw [bind, writes_for_all, writes_for_all, ih]
  | when condition body ih => rw [bind, writes_when, writes_when, ih]
  | assign op fluent value => simp [bind, Writes, nodes, Targets, Atom.bind]
  | probabilistic outcomes ih =>
      rw [bind, bind_outcomes, writes_choice, writes_choice, List.forall_mem_map]
      exact forall₂_congr fun outcome member => ih outcome member σ

variable [Number R]

theorem writes_compositional (w : Writable) : Compositional (Writes w : Effect R → Prop) :=
  throughout_compositional (targets_shallow w) (fun _ _ => id) fun _ _ _ => id

theorem writes_expand (w : Writable) : Expands (Writes w : Effect R → Prop) (Writes w) :=
  throughout_expands (targets_shallow w) (fun _ _ => id) fun _ _ _ => id

theorem gathered_writes (w : Writable) (e : Effect R) (writes : e.Writes w) (s : State R) (σs : List Substitution) :
    (e.gathered s σs).Writes w := by
  have nothing : (Changes.none : Changes R).Writes w := Changes.join_writes w [] (by simp)
  induction e generalizing σs with
  | skip => exact nothing
  | add a =>
      have written : w.facts a.name := writes (add a) (by simp [nodes])
      exact ⟨by simpa [gathered, Atom.ground, Atom.bind_all_name], by simp [gathered], by simp [gathered]⟩
  | delete a =>
      have written : w.facts a.name := writes (delete a) (by simp [nodes])
      exact ⟨by simp [gathered], by simpa [gathered, Atom.ground, Atom.bind_all_name], by simp [gathered]⟩
  | conj parts ih =>
      rw [gathered, gathered_list]
      refine Changes.join_writes w _ fun c member => ?_
      obtain ⟨part, inParts, rfl⟩ := List.mem_map.mp member
      exact ih part inParts ((writes_conj w parts).mp writes part inParts) σs
  | forAll vars body ih =>
      rw [gathered]
      refine Changes.join_writes w _ fun c member => ?_
      obtain ⟨β, _, rfl⟩ := List.mem_map.mp member
      exact ih ((writes_for_all w vars body).mp writes) _
  | when condition body ih =>
      rw [gathered]
      split
      · exact ih ((writes_when w condition body).mp writes) σs
      · exact nothing
  | assign op fluent value =>
      have written : w.fluents fluent.name := writes (assign op fluent value) (by simp [nodes])
      exact ⟨by simp [gathered], by simp [gathered], by simpa [gathered, Atom.ground, Atom.bind_all_name]⟩
  | probabilistic outcomes _ => exact nothing

end Effect

end Replan
