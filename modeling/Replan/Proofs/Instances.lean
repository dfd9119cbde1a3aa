import Replan.Proofs.Determinize.Variant
import Replan.Proofs.Hierarchy
import Replan.Proofs.Simulator

set_option autoImplicit false

namespace Replan

open Results Relation

theorem distinct_last {α β : Type} (f : α → β) (xs : List α) (x : α) :
    ((xs ++ [x]).map f).Nodup ↔ f x ∉ xs.map f ∧ (xs.map f).Nodup := by
  rw [List.map_append, List.map_singleton, ← List.concat_eq_append, List.nodup_concat]

def Hierarchy.Has (h : Hierarchy) (kind : Option String) (o : Term) : Prop :=
  ∀ k, kind = some k → k = "object" ∨ ∃ declared, o.kind = some declared ∧ ReflTransGen h.Link declared k

namespace Universe

theorem mem_objects_of (u : Universe) (kind : Option String) (o : Term) :
    o ∈ u.objectsOf kind ↔ o ∈ u.objects ∧ u.types.Has kind o := by
  cases kind with
  | none => exact (and_iff_left (by rintro _ ⟨⟩)).symm
  | some k =>
      have has : u.types.Has (some k) o ↔
          k = "object" ∨ ∃ declared, o.kind = some declared ∧ ReflTransGen u.types.Link declared k :=
        ⟨fun each => each k rfl, by rintro known _ ⟨⟩; exact known⟩
      rw [has, objectsOf]
      split
      · next top => exact (and_iff_left (.inl top)).symm
      · next below =>
          rw [List.mem_filter, or_iff_right below]
          refine and_congr_right fun _ => ?_
          rw [belongs]
          cases o.kind with
          | none => simp
          | some declared =>
              simp only [Option.some.injEq, exists_eq_left', List.contains_iff_mem]
              exact u.types.mem_ancestors declared k

theorem objects_of_sublist (u : Universe) (kind : Option String) : (u.objectsOf kind).Sublist u.objects := by
  unfold objectsOf
  split
  · exact List.Sublist.refl _
  · split
    · exact List.Sublist.refl _
    · exact List.filter_sublist

section Distinct

variable (objects : List Term)

theorem distinct_another (o : Term) :
    distinct (objects ++ [o]) =
      if o.name ∈ (distinct objects).map Term.name then distinct objects else distinct objects ++ [o] := by
  have known : ((distinct objects).any (Term.same o)) = true ↔ o.name ∈ (distinct objects).map Term.name := by
    simp only [List.any_eq_true, Term.same, beq_iff_eq, List.mem_map, eq_comm (a := o.name)]
  rw [distinct, List.foldl_append]
  exact if_congr known rfl rfl

theorem distinct_names : ((distinct objects).map Term.name).Nodup := by
  induction objects using List.reverseRecOn with
  | nil => exact .nil
  | append_singleton objects o ih =>
      rw [distinct_another]
      split
      · exact ih
      · next new => exact (distinct_last Term.name _ o).mpr ⟨new, ih⟩

theorem distinct_itself (names : (objects.map Term.name).Nodup) : distinct objects = objects := by
  induction objects using List.reverseRecOn with
  | nil => rfl
  | append_singleton objects o ih =>
      obtain ⟨new, known⟩ := (distinct_last Term.name objects o).mp names
      rw [distinct_another, ih known, if_neg new]

end Distinct

def arguments (u : Universe) : List Term → List (List String)
  | [] => [[]]
  | x :: xs => (u.objectsOf x.kind).flatMap fun o => (u.arguments xs).map fun args => o.name :: args

variable (u : Universe) (parameters : List Term)

theorem mem_arguments (args : List String) :
    args ∈ u.arguments parameters ↔
      List.Forall₂ (fun x arg => ∃ o ∈ u.objectsOf x.kind, o.name = arg) parameters args := by
  induction parameters generalizing args with
  | nil => rw [arguments, List.mem_singleton, List.forall₂_nil_left_iff]
  | cons x xs ih =>
      simp only [arguments, List.mem_flatMap, List.mem_map, List.forall₂_cons_left_iff, ih]
      constructor
      · rintro ⟨o, candidate, rest, others, rfl⟩
        exact ⟨o.name, rest, ⟨o, candidate, rfl⟩, others, rfl⟩
      · rintro ⟨_, rest, ⟨o, candidate, rfl⟩, others, rfl⟩
        exact ⟨o, candidate, rest, others, rfl⟩

theorem arguments_distinct (names : (u.objects.map Term.name).Nodup) : (u.arguments parameters).Nodup := by
  induction parameters with
  | nil => exact List.nodup_singleton []
  | cons x xs ih =>
      rw [arguments, List.nodup_flatMap]
      refine ⟨fun o _ => ih.map fun _ _ same => (List.cons.inj same).2, ?_⟩
      have candidates : ((u.objectsOf x.kind).map Term.name).Nodup :=
        names.sublist ((u.objects_of_sublist x.kind).map Term.name)
      refine (List.pairwise_map.mp candidates).imp fun differ => ?_
      simp only [Function.onFun, List.disjoint_left, List.mem_map]
      rintro _ ⟨first, -, rfl⟩ ⟨second, -, same⟩
      exact differ (List.cons.inj same).1.symm

theorem bindings_arguments :
    u.bindings parameters =
      (u.arguments parameters).map fun args => Substitution.ofPairs ((parameters.map Term.name).zip args) := by
  have extended (partials : List Substitution) :
      parameters.foldl
          (fun partials param =>
            partials.flatMap fun σ => (u.objectsOf param.kind).map fun o => σ.insert param.name o.name)
          partials =
        partials.flatMap fun σ => (u.arguments parameters).map fun args =>
          ((parameters.map Term.name).zip args).foldl (fun σ pair => σ.insert pair.1 pair.2) σ := by
    induction parameters generalizing partials with
    | nil => exact (List.flatMap_singleton' partials).symm
    | cons x xs ih =>
        rw [List.foldl_cons, ih, List.flatMap_assoc]
        refine List.flatMap_congr fun σ _ => ?_
        rw [arguments, List.flatMap_map, List.map_flatMap]
        simp only [List.map_map]
        rfl
  rw [bindings, extended, List.flatMap_singleton]
  rfl

end Universe

theorem Substitution.lookup_of_pairs (pairs : List (String × String)) (distinct : (pairs.map Prod.fst).Nodup)
    (name value : String) (member : (name, value) ∈ pairs) : (ofPairs pairs).lookup? name = some value := by
  induction pairs using List.reverseRecOn with
  | nil => cases member
  | append_singleton pairs last ih =>
      obtain ⟨new, known⟩ := (distinct_last Prod.fst pairs last).mp distinct
      rw [lookup_of_pairs_append pairs last.1 last.2 name]
      rcases List.mem_append.mp member with earlier | here
      · have other : last.1 ≠ name := by
          rintro rfl
          exact new (List.mem_map.mpr ⟨_, earlier, rfl⟩)
        rw [if_neg other]
        exact ih known earlier
      · rw [← List.mem_singleton.mp here, if_pos rfl]

theorem Substitution.bound_names (parameters : List Term) (distinct : (parameters.map Term.name).Nodup)
    (args : List String) (arity : args.length = parameters.length) :
    (parameters.map (Term.bind (ofPairs ((parameters.map Term.name).zip args)))).map Term.name = args := by
  have keys : (((parameters.map Term.name).zip args).map Prod.fst).Nodup := by
    rwa [List.map_fst_zip (by simp [arity])]
  refine List.ext_getElem (by simp [arity]) fun i inside inside' => ?_
  have bound : i < parameters.length := arity ▸ inside'
  have pair : (parameters[i].name, args[i]) ∈ (parameters.map Term.name).zip args :=
    List.mem_iff_getElem.mpr ⟨i, by simp [arity, bound], by simp⟩
  have found := lookup_of_pairs _ keys _ _ pair
  rw [List.getElem_map, List.getElem_map, Term.bind, found, Option.getD_some]

section Steps

variable {R : Type}

theorem instance_step (a : Action R) (distinct : (a.parameters.map Term.name).Nodup) (args : List String)
    (arity : args.length = a.parameters.length) : (a.bind (a.assignment args)).step = ⟨a.name, args⟩ := by
  rw [Action.step, Action.bind, Action.assignment, Substitution.bound_names a.parameters distinct args arity]

namespace Problem

variable (p : Problem R)

theorem ground_actions_arguments :
    p.groundActions = p.domain.actions.flatMap fun a =>
      (p.world.arguments a.parameters).map fun args => a.bind (a.assignment args) := by
  rw [groundActions]
  refine List.flatMap_congr fun a _ => ?_
  rw [Universe.bindings_arguments, List.map_map]
  rfl

theorem mem_ground_actions (g : Action R) :
    g ∈ p.groundActions ↔
      ∃ a ∈ p.domain.actions, ∃ args ∈ p.world.arguments a.parameters, a.ground args = .ok g := by
  rw [ground_actions_arguments, List.mem_flatMap]
  refine exists_congr fun a => and_congr_right fun _ => ?_
  rw [List.mem_map]
  refine exists_congr fun args => and_congr_right fun listed => ?_
  rw [ground_ok_iff]
  exact (and_iff_right ((p.world.mem_arguments a.parameters args).mp listed).length_eq.symm).symm

variable (actions : (p.domain.actions.map Action.name).Nodup)
  (parameters : ∀ a ∈ p.domain.actions, (a.parameters.map Term.name).Nodup)

include parameters

theorem ground_action_steps :
    p.groundActions.map Action.step = p.domain.actions.flatMap fun a =>
      (p.world.arguments a.parameters).map fun args => ⟨a.name, args⟩ := by
  rw [ground_actions_arguments, List.map_flatMap]
  refine List.flatMap_congr fun a known => ?_
  rw [List.map_map]
  refine List.map_congr_left fun args listed => ?_
  exact instance_step a (parameters a known) args ((p.world.mem_arguments a.parameters args).mp listed).length_eq.symm

include actions

theorem steps_distinct : (p.groundActions.map Action.step).Nodup := by
  rw [ground_action_steps p parameters, List.nodup_flatMap]
  constructor
  · intro a _
    exact (p.world.arguments_distinct a.parameters (Universe.distinct_names _)).map
      fun _ _ same => (Ground.mk.inj same).2
  · refine (List.pairwise_map.mp actions).imp fun differ => ?_
    simp only [Function.onFun, List.disjoint_left, List.mem_map]
    rintro _ ⟨first, -, rfl⟩ ⟨second, -, same⟩
    exact differ (Ground.mk.inj same).1.symm

theorem ground_listed (g : Action R) (listed : g ∈ p.groundActions) : p.ground g.step = .ok g := by
  obtain ⟨a, known, args, -, grounded⟩ := (p.mem_ground_actions g).mp listed
  obtain ⟨arity, rfl⟩ := (ground_ok_iff a args g).mp grounded
  rw [instance_step a (parameters a known) args arity]
  exact (problem_ground_ok_iff p _ _).mpr ⟨a, action_by_name p.domain.actions actions a known, grounded⟩

theorem applicable_iff_sampled [Number R] (s : State R) (g : Action R) (listed : g ∈ p.groundActions)
    (os : List (R × Effect R)) (expanded : g.effect.expand = .ok os) (dice : Dice R) :
    g ∈ p.applicableActions s ↔ ∃ s', (p.sample s g.step dice).1 = .ok s' := by
  have grounded := p.ground_listed actions parameters g listed
  rw [applicableActions, List.mem_filter, and_iff_right listed]
  constructor
  · intro applicable
    obtain ⟨s', sampled, -⟩ := sample_taken p s g.step dice g os
      ((outcomes_in_ok_iff p s g.step g os).mpr ⟨grounded, applicable, expanded⟩)
    exact ⟨s', congrArg Prod.fst sampled⟩
  · rintro ⟨s', sampled⟩
    obtain ⟨g', os', offered, -⟩ := (sample_ok_iff p s s' g.step dice).mp sampled
    obtain ⟨grounded', applicable, -⟩ := (outcomes_in_ok_iff p s g.step g' os').mp offered
    cases grounded.symm.trans grounded'
    exact applicable

/-- The instances of a problem are complete. They come action by action, and for each action in the order of its lists
of arguments. -/
theorem instances_are_complete [Number R] :
    (p.groundActions = p.domain.actions.flatMap fun a =>
      (p.world.arguments a.parameters).map fun args => a.bind (a.assignment args)) ∧
    (p.groundActions.map Action.step).Nodup ∧
    (((p.domain.constants ++ p.objects).map Term.name).Nodup →
      p.world.objects = p.domain.constants ++ p.objects ∧
      ∀ g, g ∈ p.groundActions ↔ ∃ a ∈ p.domain.actions, ∃ args, a.ground args = .ok g ∧
        List.Forall₂ (fun x arg => ∃ o ∈ p.domain.constants ++ p.objects, o.name = arg ∧ p.domain.types.Has x.kind o)
          a.parameters args) ∧
    (∀ g ∈ p.groundActions, p.ground g.step = .ok g) ∧
    ∀ s, (p.applicableActions s).Sublist p.groundActions ∧
      ∀ g ∈ p.groundActions, ∀ os, g.effect.expand = .ok os → ∀ dice,
        (g ∈ p.applicableActions s ↔ ∃ s', (p.sample s g.step dice).1 = .ok s') := by
  refine ⟨p.ground_actions_arguments, p.steps_distinct actions parameters, fun objects => ?_,
    p.ground_listed actions parameters,
    fun s => ⟨List.filter_sublist, p.applicable_iff_sampled actions parameters s⟩⟩
  have world : p.world.objects = p.domain.constants ++ p.objects := Universe.distinct_itself _ objects
  have candidate (x : Term) (arg : String) : (∃ o ∈ p.world.objectsOf x.kind, o.name = arg) ↔
      ∃ o ∈ p.domain.constants ++ p.objects, o.name = arg ∧ p.domain.types.Has x.kind o := by
    refine exists_congr fun o => ?_
    rw [Universe.mem_objects_of, world, and_assoc]
    exact and_congr_right fun _ => and_comm
  refine ⟨world, fun g => (p.mem_ground_actions g).trans (exists_congr fun a => and_congr_right fun _ => ?_)⟩
  simp only [Universe.mem_arguments, candidate]
  exact exists_congr fun args => and_comm

end Problem

end Steps

namespace Problem

def arrive : Action ℚ where
  name := "drive"
  parameters := [⟨"?v", some "vehicle"⟩, ⟨"?to", some "place"⟩]
  precondition := .neg (.fact ⟨"at", [⟨"?v", none⟩, ⟨"?to", none⟩]⟩)
  effect := .probabilistic [(1 / 2, .add ⟨"at", [⟨"?v", none⟩, ⟨"?to", none⟩]⟩)]
  origin := none

def depot : Domain ℚ where
  name := "depot"
  requirements := [.typing, .probabilisticEffects]
  types := ⟨[("truck", "vehicle"), ("vehicle", "object"), ("place", "object")]⟩
  constants := [⟨"hub", some "place"⟩]
  predicates := [⟨"at", [⟨"?v", some "vehicle"⟩, ⟨"?to", some "place"⟩]⟩]
  functions := []
  actions := [arrive]

def delivery : Problem ℚ where
  name := "delivery"
  domain := depot
  objects := [⟨"van", some "truck"⟩, ⟨"farm", some "place"⟩]
  init := ⟨[⟨"at", ["van", "farm"]⟩], []⟩
  goal := ⟨.fact ⟨"at", [⟨"van", none⟩, ⟨"hub", none⟩]⟩, none, none⟩

theorem instances_are_complete_delivery :
    ∃ g ∈ delivery.groundActions, g.step = ⟨"drive", ["van", "hub"]⟩ ∧ delivery.ground g.step = .ok g ∧
      delivery.groundActions.map Action.step = [⟨"drive", ["van", "hub"]⟩, ⟨"drive", ["van", "farm"]⟩] ∧
      (delivery.groundActions.map Action.step).Nodup ∧ g ∈ delivery.applicableActions delivery.initialState ∧
      ∀ dice, ∃ s', (delivery.sample delivery.initialState g.step dice).1 = .ok s' := by
  obtain ⟨-, distinct, listed, invertible, applicable⟩ := instances_are_complete delivery (by decide)
    (by simp only [delivery, depot, List.forall_mem_singleton]; decide)
  obtain ⟨-, each⟩ := listed (by decide)
  have truck : delivery.domain.types.Has (some "vehicle") ⟨"van", some "truck"⟩ := by
    rintro _ ⟨⟩
    exact .inr ⟨"truck", rfl, .single (by decide : depot.types.parent? "truck" = some "vehicle")⟩
  have place : delivery.domain.types.Has (some "place") ⟨"hub", some "place"⟩ := by
    rintro _ ⟨⟩
    exact .inr ⟨"place", rfl, .refl⟩
  have member : arrive.bind (arrive.assignment ["van", "hub"]) ∈ delivery.groundActions :=
    (each _).mpr ⟨arrive, List.mem_singleton_self arrive, ["van", "hub"], rfl,
      .cons ⟨_, by decide, rfl, truck⟩ (.cons ⟨_, by decide, rfl, place⟩ .nil)⟩
  have step : (arrive.bind (arrive.assignment ["van", "hub"])).step = ⟨"drive", ["van", "hub"]⟩ := by decide
  have expands : ((arrive.bind (arrive.assignment ["van", "hub"])).effect.expand).isOk = true := by decide +kernel
  obtain ⟨os, expanded⟩ := (is_ok_iff _).mp expands
  have holds : arrive.bind (arrive.assignment ["van", "hub"]) ∈ delivery.applicableActions delivery.initialState :=
    List.mem_filter.mpr ⟨member, by decide +kernel⟩
  exact ⟨_, member, step, invertible _ member, by decide +kernel, distinct, holds, fun dice =>
    ((applicable delivery.initialState).2 _ member os expanded dice).mp holds⟩

end Problem

end Replan
