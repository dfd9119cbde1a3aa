import Replan.Proofs.Results
import Replan.Proofs.Source.Declarations
import Replan.Source.DomainFile

set_option autoImplicit false

namespace Replan

open Results

namespace Substitution

theorem insert_new (σ : Substitution) (key value : String) (new : key ∉ σ.map Prod.fst) :
    σ.insert key value = σ ++ [(key, value)] := by
  induction σ with
  | nil => rfl
  | cons pair rest ih =>
      obtain ⟨other, later⟩ := not_or.mp (mt List.mem_cons.mpr new)
      rw [insert, if_neg (Ne.symm other), ih later, List.cons_append]

end Substitution

namespace Hierarchy

theorem of_pairs_distinct (pairs : List (String × String)) (distinct : (pairs.map Prod.fst).Nodup) :
    ofPairs pairs = ⟨pairs⟩ := by
  suffices ∀ σ : Substitution, ((σ ++ pairs).map Prod.fst).Nodup →
      pairs.foldl (fun h pair => h.insert pair.1 pair.2) ⟨σ⟩ = (⟨σ ++ pairs⟩ : Hierarchy) from this [] distinct
  clear distinct
  induction pairs with
  | nil => simp
  | cons pair pairs ih =>
      intro σ distinct
      have new : pair.1 ∉ σ.map Prod.fst := by
        rw [List.map_append, List.map_cons, List.nodup_append] at distinct
        exact fun member => distinct.2.2 pair.1 member pair.1 List.mem_cons_self rfl
      rw [List.foldl_cons, insert, Substitution.insert_new σ pair.1 pair.2 new, ih (σ ++ [pair]), List.append_assoc]
      · rfl
      · rwa [List.append_assoc]

end Hierarchy

variable {R : Type}

namespace Source

theorem check_then_ok_iff {ε β : Type} (x : Except ε Unit) (f : Unit → Except ε β) (b : β) :
    x >>= f = .ok b ↔ x = .ok () ∧ f () = .ok b := by
  rw [bind_ok_iff]
  exact ⟨fun ⟨_, done, rest⟩ => ⟨done, rest⟩, fun ⟨done, rest⟩ => ⟨(), done, rest⟩⟩

theorem first_span_none (seen : List (Span × String)) (name : String) :
    firstSpan? seen name = none ↔ name ∉ seen.map Prod.snd := by
  rw [firstSpan?, Option.map_eq_none_iff, List.find?_eq_none, List.mem_map]
  simp only [beq_iff_eq, not_exists, not_and]

theorem distinct_from_ok_iff (kind : String → ErrorKind R) (seen names : List (Span × String)) :
    checkDistinctFrom kind seen names = .ok () ↔
      (names.map Prod.snd).Nodup ∧ ∀ name ∈ names.map Prod.snd, name ∉ seen.map Prod.snd := by
  induction names generalizing seen with
  | nil => simp [checkDistinctFrom]
  | cons entry names ih =>
      rw [checkDistinctFrom, List.map_cons, List.nodup_cons, List.forall_mem_cons]
      cases found : firstSpan? seen entry.2 with
      | some span =>
          have old : ¬entry.2 ∉ seen.map Prod.snd := by
            rw [← first_span_none, found]
            exact Option.some_ne_none span
          simp only [reduceCtorEq, false_iff]
          exact fun distinct => old distinct.2.1
      | none =>
          have new := (first_span_none seen entry.2).mp found
          simp only [ih, List.map_append, List.map_cons, List.map_nil, List.mem_append, List.mem_singleton, not_or]
          constructor
          · rintro ⟨distinct, apart⟩
            exact ⟨⟨fun again => (apart _ again).2 rfl, distinct⟩, new, fun name member => (apart name member).1⟩
          · rintro ⟨⟨once, distinct⟩, -, apart⟩
            refine ⟨distinct, fun name member => ⟨apart name member, ?_⟩⟩
            rintro rfl
            exact once member

theorem distinct_ok_iff (kind : String → ErrorKind R) (names : List (Span × String)) :
    checkDistinct kind names = .ok () ↔ (names.map Prod.snd).Nodup := by
  rw [checkDistinct, distinct_from_ok_iff]
  simp

theorem check_types_ok_iff (types : Hierarchy) (entries : List (Span × Term)) :
    checkTypes (R := R) types entries = .ok () ↔ Domain.Known types (entries.map Prod.snd) := by
  induction entries with
  | nil => simp [checkTypes, Domain.Known]
  | cons entry entries ih =>
      rw [checkTypes, List.map_cons, Domain.Known, List.forall_mem_cons, undeclared?]
      cases kind : entry.2.kind with
      | none =>
          simp only [Option.filter_none, ih]
          exact ⟨fun rest => ⟨by simp, rest⟩, And.right⟩
      | some k =>
          cases known : types.contains k with
          | true =>
              simp only [Option.filter_some, known, Bool.not_true, Bool.false_eq_true, if_false, ih]
              exact ⟨fun rest => ⟨by simpa using known, rest⟩, And.right⟩
          | false =>
              simp only [Option.filter_some, known, Bool.not_false, if_true, reduceCtorEq, false_iff]
              intro all
              have contradiction := all.1 k rfl
              rw [known] at contradiction
              cases contradiction

theorem term_names (entries : List (Span × Term)) : (termNames entries).map Prod.snd = (entries.map Prod.snd).map Term.name := by
  rw [termNames, List.map_map, List.map_map]
  rfl

theorem check_actions_ok_iff (types : Hierarchy) (actions : List (Action R × List (Span × Term))) :
    checkActions types actions = .ok () ↔ ∀ entry ∈ actions, Domain.Known types (entry.2.map Prod.snd) := by
  induction actions with
  | nil => simp [checkActions]
  | cons entry actions ih =>
      rw [checkActions, check_then_ok_iff, List.forall_mem_cons, ← ih, ← check_types_ok_iff (R := R)]

theorem hierarchy_terms (declared : List (Span × Term)) :
    hierarchy declared = Hierarchy.ofPairs ((declared.map Prod.snd).map fun t => (t.name, t.kind.getD "object")) := by
  rw [hierarchy, List.map_map]
  rfl

namespace DomainFile

structure Checked (file : DomainFile R) : Prop where
  distinctTypes : ((file.types.map Prod.snd).map Term.name).Nodup
  types : Domain.Known (hierarchy file.types) (file.types.map Prod.snd)
  distinctConstants : ((file.constants.map Prod.snd).map Term.name).Nodup
  constants : Domain.Known (hierarchy file.types) (file.constants.map Prod.snd)
  distinctPredicates : ((file.predicates.map Prod.snd).map Atom.name).Nodup
  parameters : ∀ entry ∈ file.actions, Domain.Known (hierarchy file.types) (entry.2.map Prod.snd)

def domain (file : DomainFile R) : Domain R where
  name := file.name
  requirements := file.requirements
  types := hierarchy file.types
  constants := file.constants.map Prod.snd
  predicates := file.predicates.map Prod.snd
  functions := file.functions
  actions := file.actions.map Prod.fst

theorem check_ok_iff (file : DomainFile R) (d : Domain R) : file.check = .ok d ↔ file.Checked ∧ file.domain = d := by
  have predicates : (file.predicates.map fun entry => (entry.1, entry.2.name)).map Prod.snd =
      (file.predicates.map Prod.snd).map Atom.name := by
    rw [List.map_map, List.map_map]
    rfl
  simp only [check, check_then_ok_iff, distinct_ok_iff, check_types_ok_iff, check_actions_ok_iff, term_names, predicates,
    pure_ok_iff]
  constructor
  · rintro ⟨distinctTypes, types, distinctConstants, constants, distinctPredicates, parameters, same⟩
    exact ⟨⟨distinctTypes, types, distinctConstants, constants, distinctPredicates, parameters⟩, same⟩
  · rintro ⟨checked, same⟩
    exact ⟨checked.distinctTypes, checked.types, checked.distinctConstants, checked.constants,
      checked.distinctPredicates, checked.parameters, same⟩

theorem hierarchy_parents (file : DomainFile R) (checked : file.Checked) :
    (hierarchy file.types).parents =
      (file.types.map Prod.snd).map fun t => (t.name, t.kind.getD "object") := by
  rw [hierarchy_terms, Hierarchy.of_pairs_distinct]
  rw [List.map_map]
  exact checked.distinctTypes

end DomainFile

end Source

end Replan
