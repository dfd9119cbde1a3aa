import Replan.Proofs.Instances

set_option autoImplicit false

namespace Replan

open Relation

abbrev Index := List (String × List Term)

namespace Index

def listed (index : Index) (kind : String) : List Term :=
  ((index.find? fun entry => entry.1 == kind).map Prod.snd).getD []

def enter (o : Term) : Index → String → Index
  | [], kind => [(kind, [o])]
  | entry :: rest, kind =>
      if entry.1 = kind then (entry.1, entry.2 ++ [o]) :: rest else entry :: enter o rest kind

def register (types : Hierarchy) (index : Index) (o : Term) : Index :=
  match o.kind with
  | none => index
  | some declared => (types.ancestors declared).foldl (enter o) index

theorem listed_cons (entry : String × List Term) (rest : Index) (kind : String) :
    listed (entry :: rest) kind = if entry.1 = kind then entry.2 else listed rest kind := by
  by_cases same : entry.1 = kind
  · rw [listed, List.find?_cons_of_pos (by simpa using same), if_pos same]
    rfl
  · rw [listed, List.find?_cons_of_neg (by simpa using same), if_neg same]
    rfl

theorem listed_enter (o : Term) (index : Index) (new kind : String) :
    (enter o index new).listed kind = if new = kind then index.listed kind ++ [o] else index.listed kind := by
  induction index with
  | nil => exact listed_cons (new, [o]) [] kind
  | cons entry rest ih =>
      rw [enter]
      by_cases here : entry.1 = new
      · rw [if_pos here, listed_cons, listed_cons, here]
        by_cases same : new = kind
        · rw [if_pos same, if_pos same, if_pos same]
        · rw [if_neg same, if_neg same, if_neg same]
      · rw [if_neg here, listed_cons, listed_cons, ih]
        by_cases same : new = kind
        · have other : entry.1 ≠ kind := fun reached => here (reached.trans same.symm)
          rw [if_neg other, if_pos same, if_pos same, if_neg other]
        · rw [if_neg same, if_neg same]

theorem listed_enter_all (o : Term) (index : Index) (kinds : List String) (distinct : kinds.Nodup) (kind : String) :
    (kinds.foldl (enter o) index).listed kind =
      if kind ∈ kinds then index.listed kind ++ [o] else index.listed kind := by
  induction kinds generalizing index with
  | nil => rfl
  | cons new kinds ih =>
      obtain ⟨once, later⟩ := List.nodup_cons.mp distinct
      rw [List.foldl_cons, ih _ later, listed_enter]
      by_cases same : new = kind
      · have absent : kind ∉ kinds := same ▸ once
        rw [if_neg absent, if_pos same, if_pos (same ▸ List.mem_cons_self)]
      · have unmoved : kind ∈ new :: kinds ↔ kind ∈ kinds := by
          rw [List.mem_cons, or_iff_right (Ne.symm same)]
        rw [if_neg same]
        exact (if_congr unmoved rfl rfl).symm

theorem listed_register (u : Universe) (index : Index) (o : Term) (kind : String) :
    (register u.types index o).listed kind =
      if u.belongs kind o = true then index.listed kind ++ [o] else index.listed kind := by
  rw [register, Universe.belongs]
  cases o.kind with
  | none => rfl
  | some declared =>
      rw [listed_enter_all o index _ (u.types.ancestors_ascend declared).distinct kind]
      exact if_congr List.contains_iff_mem.symm rfl rfl

end Index

namespace Universe

def take (types : Hierarchy) (state : List Term × Index) (o : Term) : List Term × Index :=
  if state.1.any (Term.same o) then state else (state.1 ++ [o], state.2.register types o)

def gather (types : Hierarchy) (objects : List Term) : List Term × Index := objects.foldl (take types) ([], [])

theorem gather_another (types : Hierarchy) (objects : List Term) (o : Term) :
    gather types (objects ++ [o]) = take types (gather types objects) o := by
  rw [gather, List.foldl_append]
  rfl

theorem gathered (types : Hierarchy) (objects : List Term) :
    (gather types objects).1 = distinct objects ∧
      ∀ kind, (gather types objects).2.listed kind = (distinct objects).filter ((ofObjects objects types).belongs kind) := by
  induction objects using List.reverseRecOn with
  | nil => exact ⟨rfl, fun _ => rfl⟩
  | append_singleton objects o ih =>
      obtain ⟨kept, index⟩ := ih
      have same (kind : String) : (ofObjects (objects ++ [o]) types).belongs kind = (ofObjects objects types).belongs kind := rfl
      have more : distinct (objects ++ [o]) =
          if (distinct objects).any (Term.same o) then distinct objects else distinct objects ++ [o] := by
        rw [distinct, List.foldl_append]
        rfl
      rw [gather_another, take, kept, more]
      by_cases known : (distinct objects).any (Term.same o) = true
      · rw [if_pos known, if_pos known]
        exact ⟨kept, index⟩
      · rw [if_neg known, if_neg known]
        refine ⟨rfl, fun kind => ?_⟩
        have entered := Index.listed_register (ofObjects objects types) (gather types objects).2 o kind
        refine entered.trans ?_
        rw [index, same, List.filter_append, List.filter_singleton]
        by_cases belongs : (ofObjects objects types).belongs kind o = true
        · rw [if_pos belongs, belongs]
          rfl
        · rw [if_neg belongs, (Bool.not_eq_true _).mp belongs]
          exact (List.append_nil _).symm

section Kept

variable (objects : List Term)

theorem distinct_sublist : (distinct objects).Sublist objects := by
  induction objects using List.reverseRecOn with
  | nil => exact List.Sublist.refl []
  | append_singleton objects o ih =>
      rw [distinct_another]
      by_cases known : o.name ∈ (distinct objects).map Term.name
      · rw [if_pos known]
        exact ih.trans (List.sublist_append_left objects [o])
      · rw [if_neg known]
        exact ih.append (List.Sublist.refl [o])

theorem find_name_none (o : Term) : objects.find? (Term.same o) = none ↔ o.name ∉ objects.map Term.name := by
  simp only [List.find?_eq_none, Term.same, beq_iff_eq, List.mem_map, not_exists, not_and, eq_comm (a := o.name)]

theorem find_distinct (o : Term) : (distinct objects).find? (Term.same o) = objects.find? (Term.same o) := by
  induction objects using List.reverseRecOn with
  | nil => rfl
  | append_singleton objects x ih =>
      rw [distinct_another, List.find?_append, ← ih]
      by_cases known : x.name ∈ (distinct objects).map Term.name
      · rw [if_pos known]
        by_cases same : Term.same o x = true
        · have name : o.name = x.name := beq_iff_eq.mp same
          have found := mt (find_name_none (distinct objects) o).mp (not_not.mpr (name ▸ known))
          rw [Option.or_of_isSome (Option.isSome_iff_ne_none.mpr found)]
        · rw [List.find?_cons_of_neg same, List.find?_nil, Option.or_none]
      · rw [if_neg known, List.find?_append]

theorem mem_distinct (o : Term) : o ∈ distinct objects ↔ objects.find? (Term.same o) = some o := by
  rw [← find_distinct]
  constructor
  · intro member
    cases found : (distinct objects).find? (Term.same o) with
    | none => exact absurd (List.mem_map_of_mem member) ((find_name_none _ o).mp found)
    | some p =>
        have same : Term.same o p = true := List.find?_some found
        have name : o.name = p.name := beq_iff_eq.mp same
        rw [List.inj_on_of_nodup_map (distinct_names objects) member (List.mem_of_find?_eq_some found) name]
  · exact List.mem_of_find?_eq_some

end Kept

section Bindings

variable (u : Universe) (parameters : List Term)

def Earlier (a b : String) : Prop := (u.objects.map Term.name).idxOf a < (u.objects.map Term.name).idxOf b

def Precedes (σ τ : Substitution) : Prop :=
  List.Lex u.Earlier ((parameters.map (Term.bind σ)).map Term.name) ((parameters.map (Term.bind τ)).map Term.name)

theorem precedes_itself (σ : Substitution) : ¬u.Precedes parameters σ σ :=
  List.lex_irrefl (r := u.Earlier) (fun _ => Nat.lt_irrefl _) _

theorem objects_earlier (names : (u.objects.map Term.name).Nodup) :
    u.objects.Pairwise fun a b => u.Earlier a.name b.name := by
  rw [← List.pairwise_map (f := Term.name) (R := u.Earlier), List.pairwise_iff_getElem]
  intro i j before inside less
  rw [Earlier, names.idxOf_getElem, names.idxOf_getElem]
  exact less

theorem arguments_ordered (names : (u.objects.map Term.name).Nodup) :
    (u.arguments parameters).Pairwise (List.Lex u.Earlier) := by
  induction parameters with
  | nil => exact List.pairwise_singleton _ _
  | cons x xs ih =>
      rw [arguments, List.pairwise_flatMap]
      constructor
      · intro o _
        rw [List.pairwise_map]
        exact ih.imp .cons
      · refine ((u.objects_earlier names).sublist (u.objects_of_sublist x.kind)).imp fun earlier => ?_
        intro args first args' second
        obtain ⟨_, -, rfl⟩ := List.mem_map.mp first
        obtain ⟨_, -, rfl⟩ := List.mem_map.mp second
        exact .rel earlier

variable (distinct : (parameters.map Term.name).Nodup)

theorem arguments_arity (args : List String) (listed : args ∈ u.arguments parameters) :
    args.length = parameters.length :=
  ((u.mem_arguments parameters args).mp listed).length_eq.symm

include distinct

theorem bindings_ordered (names : (u.objects.map Term.name).Nodup) :
    (u.bindings parameters).Pairwise (u.Precedes parameters) := by
  rw [bindings_arguments, List.pairwise_map]
  refine (u.arguments_ordered parameters names).imp_of_mem fun first second earlier => ?_
  rw [Precedes, Substitution.bound_names parameters distinct _ (u.arguments_arity parameters _ first),
    Substitution.bound_names parameters distinct _ (u.arguments_arity parameters _ second)]
  exact earlier

theorem bindings_distinct (names : (u.objects.map Term.name).Nodup) :
    ((u.bindings parameters).map Substitution.lookup?).Nodup := by
  rw [List.Nodup, List.pairwise_map]
  refine (u.bindings_ordered parameters distinct names).imp fun {σ τ} precedes same => ?_
  have terms : Term.bind σ = Term.bind τ := by
    funext x
    rw [Term.bind, Term.bind, same]
  rw [Precedes, terms] at precedes
  exact u.precedes_itself parameters τ precedes

theorem mem_bindings (f : String → Option String) :
    (∃ σ ∈ u.bindings parameters, σ.lookup? = f) ↔
      (∀ x ∈ parameters, ∃ o ∈ u.objectsOf x.kind, f x.name = some o.name) ∧
        ∀ name, name ∉ parameters.map Term.name → f name = none := by
  have given (args : List String) (arity : args.length = parameters.length) (i : Nat) (inside : i < parameters.length) :
      (Substitution.ofPairs ((parameters.map Term.name).zip args)).lookup? parameters[i].name = some (args[i]) := by
    refine Substitution.lookup_of_pairs _ ?_ _ _ (List.mem_iff_getElem.mpr ⟨i, by simp [arity, inside], by simp⟩)
    rwa [List.map_fst_zip (by simp [arity])]
  constructor
  · intro found
    obtain ⟨σ, member, rfl⟩ := found
    have outside := fun name => (u.binding_lookup parameters σ member name).1
    rw [bindings_arguments] at member
    obtain ⟨args, listed, rfl⟩ := List.mem_map.mp member
    refine ⟨fun x known => ?_, outside⟩
    obtain ⟨i, inside, rfl⟩ := List.mem_iff_getElem.mp known
    have objects := (u.mem_arguments parameters args).mp listed
    obtain ⟨o, candidate, name⟩ := objects.get inside (objects.length_eq ▸ inside)
    exact ⟨o, candidate, (given args objects.length_eq.symm i inside).trans (congrArg some name.symm)⟩
  · intro known
    obtain ⟨objects, nothing⟩ := known
    have values : (parameters.map fun x => (f x.name).getD "") ∈ u.arguments parameters := by
      rw [mem_arguments, List.forall₂_map_right_iff, List.forall₂_same]
      intro x member
      obtain ⟨o, candidate, value⟩ := objects x member
      exact ⟨o, candidate, by rw [value, Option.getD_some]⟩
    have member := List.mem_map_of_mem
      (f := fun args => Substitution.ofPairs ((parameters.map Term.name).zip args)) values
    rw [← bindings_arguments] at member
    refine ⟨_, member, funext fun name => ?_⟩
    by_cases inside : name ∈ parameters.map Term.name
    · obtain ⟨x, listed, rfl⟩ := List.mem_map.mp inside
      obtain ⟨i, bound, rfl⟩ := List.mem_iff_getElem.mp listed
      obtain ⟨o, -, value⟩ := objects _ listed
      rw [given _ (by simp) i bound, List.getElem_map, value, Option.getD_some]
    · rw [(u.binding_lookup parameters _ member name).1 inside, nothing name inside]

omit distinct in
theorem mem_objects_below (kind : String) (below : kind ≠ "object") (o : Term) :
    o ∈ u.objectsOf (some kind) ↔
      o ∈ u.objects ∧ ∃ declared, o.kind = some declared ∧ kind ∈ u.types.ancestors declared := by
  rw [objectsOf, if_neg below, List.mem_filter, belongs]
  cases o.kind with
  | none => simp
  | some declared => simp only [Option.some.injEq, exists_eq_left', List.contains_iff_mem]

end Bindings

/-- Objects and assignments follow the declared types: a parameter ranges over the objects of its type and of those
below it, and the assignments are listed in order, each once. -/
theorem universe_follows_types (types : Hierarchy) (objects : List Term) (u : Universe)
    (built : u = ofObjects objects types) :
    (∀ kind, types.Ascent kind (types.ancestors kind)) ∧
      (u.objects.Sublist objects ∧ (u.objects.map Term.name).Nodup ∧
        ∀ o, o ∈ u.objects ↔ objects.find? (Term.same o) = some o) ∧
      (u.objectsOf none = u.objects ∧ u.objectsOf (some "object") = u.objects) ∧
      (∀ kind, kind ≠ "object" →
        (u.objectsOf (some kind)).Sublist u.objects ∧ ((u.objectsOf (some kind)).map Term.name).Nodup ∧
          (∀ o, o ∈ u.objectsOf (some kind) ↔
            o ∈ u.objects ∧ ∃ declared, o.kind = some declared ∧ kind ∈ types.ancestors declared) ∧
          (gather types objects).2.listed kind = u.objectsOf (some kind)) ∧
      (gather types objects).1 = u.objects ∧
      ∀ parameters : List Term, (parameters.map Term.name).Nodup →
        (u.bindings parameters).Pairwise (u.Precedes parameters) ∧
          ((u.bindings parameters).map Substitution.lookup?).Nodup ∧
          ∀ f : String → Option String, (∃ σ ∈ u.bindings parameters, σ.lookup? = f) ↔
            (∀ x ∈ parameters, ∃ o ∈ u.objectsOf x.kind, f x.name = some o.name) ∧
              ∀ name, name ∉ parameters.map Term.name → f name = none := by
  subst built
  have names : (((ofObjects objects types).objects).map Term.name).Nodup := distinct_names objects
  obtain ⟨kept, index⟩ := gathered types objects
  have top : (ofObjects objects types).objectsOf (some "object") = (ofObjects objects types).objects := by
    rw [objectsOf, if_pos rfl]
  refine ⟨types.ancestors_ascend, ⟨distinct_sublist objects, names, mem_distinct objects⟩, ⟨rfl, top⟩, ?_, kept, ?_⟩
  · intro kind below
    have within := (ofObjects objects types).objects_of_sublist (some kind)
    have indexed : (gather types objects).2.listed kind = (ofObjects objects types).objectsOf (some kind) := by
      rw [index, objectsOf, if_neg below]
      rfl
    exact ⟨within, names.sublist (within.map Term.name), mem_objects_below _ kind below, indexed⟩
  · intro parameters distinct
    exact ⟨bindings_ordered _ parameters distinct names, bindings_distinct _ parameters distinct names,
      mem_bindings _ parameters distinct⟩

def garageTypes : Hierarchy := ⟨[("car", "vehicle"), ("vehicle", "thing"), ("thing", "vehicle")]⟩

def garage : Universe :=
  ofObjects [⟨"mini", some "car"⟩, ⟨"jack", some "thing"⟩, ⟨"mini", some "thing"⟩, ⟨"anna", none⟩] garageTypes

theorem universe_follows_types_garage :
    garageTypes.ancestors "car" = ["car", "vehicle", "thing"] ∧ garageTypes.Ascent "car" ["car", "vehicle", "thing"] ∧
      garage.objectsOf (some "vehicle") = [⟨"mini", some "car"⟩, ⟨"jack", some "thing"⟩] ∧
      ((garage.bindings [⟨"?x", some "vehicle"⟩, ⟨"?y", some "car"⟩]).map Substitution.lookup?).Nodup ∧
      ∃ σ ∈ garage.bindings [⟨"?x", some "vehicle"⟩, ⟨"?y", some "car"⟩],
        σ.lookup? "?x" = some "jack" ∧ σ.lookup? "?y" = some "mini" := by
  obtain ⟨ascends, -, -, -, -, bound⟩ := universe_follows_types garageTypes _ garage rfl
  obtain ⟨-, distinct, each⟩ := bound [⟨"?x", some "vehicle"⟩, ⟨"?y", some "car"⟩] (by decide)
  have listed : garageTypes.ancestors "car" = ["car", "vehicle", "thing"] := by decide
  obtain ⟨σ, member, values⟩ :=
    (each fun name => if name = "?x" then some "jack" else if name = "?y" then some "mini" else none).mpr ⟨by decide, by
      intro name outside
      simp only [List.map_cons, List.map_nil, List.mem_cons, List.not_mem_nil, or_false, not_or] at outside
      rw [if_neg outside.1, if_neg outside.2]⟩
  exact ⟨listed, listed ▸ ascends "car", by decide, distinct, σ, member, by rw [values]; rfl, by rw [values]; rfl⟩

end Universe

end Replan
