import Replan.Proofs.Source.VariantText

set_option autoImplicit false

namespace Replan

open Results Source Names

namespace RequirementSet

theorem mem_closure (a : RequirementSet) (r : Requirement) : r ∈ closure a ↔ ∃ s ∈ a, r ∈ s.closure := by
  rw [closure, mem_of_list, List.mem_flatMap]

theorem mdp_closure (r s : Requirement) (implied : r ∈ s.closure) (feature : s ∈ Requirement.mdpFeatures) : r = s := by
  cases s with
  | probabilisticEffects | rewards => exact List.mem_singleton.mp implied
  | _ => simp [Requirement.mdpFeatures] at feature

theorem diff_canonical (a b : RequirementSet) (canonical : ofList a = a) : ofList (diff a b) = diff a b := by
  refine (List.filter_congr fun r _ => ?_).trans ((List.filter_filter).symm.trans (congrArg (List.filter _) canonical))
  rw [Bool.eq_iff_iff, List.contains_iff_mem, mem_diff]
  simp [and_comm]

end RequirementSet

namespace Substitution

theorem mem_insert (σ : Substitution) (key value : String) (pair : String × String) (member : pair ∈ σ.insert key value) :
    pair = (key, value) ∨ pair ∈ σ := by
  induction σ with
  | nil => exact .inl (List.mem_singleton.mp member)
  | cons first rest ih =>
      rw [insert] at member
      split at member
      · exact (List.mem_cons.mp member).imp_right (List.mem_cons_of_mem first)
      · rcases List.mem_cons.mp member with rfl | later
        · exact .inr List.mem_cons_self
        · exact (ih later).imp_right (List.mem_cons_of_mem first)

theorem insert_distinct (σ : Substitution) (key value : String) (distinct : (σ.map Prod.fst).Nodup) :
    ((σ.insert key value).map Prod.fst).Nodup := by
  induction σ with
  | nil => exact List.nodup_singleton key
  | cons first rest ih =>
      obtain ⟨fresh, others⟩ := List.nodup_cons.mp distinct
      rw [insert]
      split
      · next same => exact List.nodup_cons.mpr ⟨same ▸ fresh, others⟩
      · next other =>
          refine List.nodup_cons.mpr ⟨fun again => ?_, ih others⟩
          obtain ⟨pair, member, same⟩ := List.mem_map.mp again
          rcases mem_insert rest key value pair member with rfl | known
          · exact other same.symm
          · exact fresh (same ▸ List.mem_map_of_mem known)

end Substitution

theorem Hierarchy.contains_insert (h : Hierarchy) (child parent kind : String) :
    (h.insert child parent).contains kind = true ↔ kind = child ∨ h.contains kind = true := by
  rw [contains, contains, parent_insert]
  by_cases same : child = kind
  · simp [same]
  · simp [same, Ne.symm same]

variable {R : Type} {licence other : RequirementSet → Prop}

namespace Domain

theorem classical_shape (d : Domain R) (actions : List (Action R)) : ∃ requirements functions,
    d.classical actions = { d with actions, requirements, functions } := by
  unfold classical
  simp only
  split <;> split <;> exact ⟨_, _, rfl⟩

theorem classical_canonical (d : Domain R) (actions : List (Action R))
    (canonical : RequirementSet.ofList d.requirements = d.requirements) :
    RequirementSet.ofList (d.classical actions).requirements = (d.classical actions).requirements := by
  obtain ⟨costed, required, -, -, made⟩ := d.classical_costed actions
  rw [made]
  split
  · exact RequirementSet.of_list_again _
  · rw [required]
    exact RequirementSet.diff_canonical _ _ canonical

theorem classical_requires (d : Domain R) (actions : List (Action R)) (r : Requirement) (member : r ∈ d.requirements)
    (classical : r ∉ Requirement.mdpFeatures) : r ∈ (d.classical actions).requirements := by
  obtain ⟨costed, required, -, -, made⟩ := d.classical_costed actions
  have kept : r ∈ costed.requirements := required ▸ (RequirementSet.mem_diff _ _ r).mpr ⟨member, classical⟩
  rw [made]
  split
  · exact (RequirementSet.mem_union _ _ r).mpr (.inl kept)
  · exact kept

theorem classical_legible [Number R] (given : ∀ oneOf ∈ Effect.gates, licence oneOf → other oneOf) (d : Domain R)
    (legible : d.Legible licence fun _ => True) (fluents : other fluentRequirements) (actions : List (Action R))
    (each : ∀ a ∈ actions, a.Legible other fun _ => True) : (d.classical actions).Legible other fun _ => True := by
  have typing := given [.typing] (by decide)
  have declared (isWord : String → Prop) (ts : List Term) (declares : Declares isWord licence ts) :
      Declares isWord other ts := fun t member =>
    ⟨(declares t member).1, fun kind typed => ((declares t member).2 kind typed).imp_right typing⟩
  have canonical := d.classical_canonical actions legible.requirements
  have functions := (d.classical_functions actions).1
  obtain ⟨requirements, fluentNames, shape⟩ := d.classical_shape actions
  rw [shape] at canonical functions ⊢
  constructor
  · exact legible.name
  · exact canonical
  · intro pair member
    obtain ⟨child, parent, licensed⟩ := legible.types pair member
    exact ⟨child, parent, typing licensed⟩
  · exact declared IsName d.constants legible.constants
  · intro a member
    exact (legible.predicates a member).imp_right (declared IsVariable a.args)
  · intro f member
    rcases functions f member with rfl | ⟨known, -⟩
    · exact ⟨⟨Effect.cost_reads.1, by simp [totalCostAtom, Declares]⟩, fluents⟩
    · exact ⟨(legible.functions f known).1.imp_right (declared IsVariable f.args), fluents⟩
  · exact each

end Domain

namespace Hindsight

def wheelPredicates (method : WheelMethod) (auxiliary : List Atom) : List Atom :=
  binary nextName :: (match method with
    | .shared => [unary nowName]
    | .perAction => []) ++ auxiliary

def withWheel (method : WheelMethod) (auxiliary : List Atom) (d : Domain R) : Domain R :=
  { d with
    requirements := RequirementSet.union d.requirements [.typing]
    types := d.types.insert stepType "object"
    predicates := d.predicates ++ wheelPredicates method auxiliary }

theorem declare_wheel_cases (method : WheelMethod) (auxiliary : List Atom) (d : Domain R) :
    declareWheel method auxiliary d = if auxiliary.isEmpty then d else withWheel method auxiliary d := by
  unfold declareWheel
  split
  · rfl
  · cases method <;> simp [withWheel, wheelPredicates]

theorem with_wheel_legible [Number R] (method : WheelMethod) (auxiliary : List Atom) (d : Domain R)
    (legible : d.Legible licence fun _ => True) (typing : licence [.typing])
    (names : ∀ a ∈ auxiliary, ∃ name, IsName name ∧ a = unary name) :
    (withWheel method auxiliary d).Legible licence fun _ => True := by
  have steps := steps_declared typing
  have single (name : String) (isName : IsName name) : (unary name).Declaration licence :=
    ⟨isName, List.forall_mem_singleton.mpr (steps _ List.mem_cons_self)⟩
  constructor
  · exact legible.name
  · exact RequirementSet.of_list_again _
  · intro pair member
    rcases Substitution.mem_insert d.types.parents stepType "object" pair member with rfl | known
    · exact ⟨by decide, by decide, typing⟩
    · exact legible.types pair known
  · exact legible.constants
  · refine List.forall_mem_append.mpr ⟨legible.predicates, List.forall_mem_append.mpr ⟨?_, ?_⟩⟩
    · refine List.forall_mem_cons.mpr ⟨⟨by decide, steps⟩, ?_⟩
      cases method with
      | shared => exact List.forall_mem_singleton.mpr (single nowName (by decide))
      | perAction => simp
    · intro a member
      obtain ⟨name, isName, rfl⟩ := names a member
      exact single name isName
  · exact legible.functions
  · exact legible.actions

variable [Number R]

theorem mem_auxiliary (method : WheelMethod) (b : Action R) (a : Atom) (member : a ∈ auxiliaryOf method b) :
    isWheeled b = true ∧ ((∃ i, a = unary (choiceName b.name i)) ∨
      method = .perAction ∧ a = unary (tokenName .perAction b.name)) := by
  unfold auxiliaryOf at member
  split at member
  · next wheel =>
      refine ⟨wheel, ?_⟩
      cases method with
      | shared =>
          obtain ⟨i, -, rfl⟩ := List.mem_map.mp member
          exact .inl ⟨i, rfl⟩
      | perAction =>
          rcases List.mem_cons.mp member with rfl | choice
          · exact .inr ⟨rfl, rfl⟩
          · obtain ⟨i, -, rfl⟩ := List.mem_map.mp choice
            exact .inl ⟨i, rfl⟩
  · cases member

theorem auxiliary_distinct (method : WheelMethod) (b : Action R) : ((auxiliaryOf method b).map Atom.name).Nodup := by
  have choices : (((List.range b.outcomes.length).map fun i => unary (choiceName b.name i)).map Atom.name).Nodup := by
    rw [List.map_map]
    exact List.nodup_range.map fun i j same => (choice_name_injective _ _ i j same).2
  unfold auxiliaryOf
  split
  · cases method with
    | shared => exact choices
    | perAction =>
        refine List.nodup_cons.mpr ⟨fun again => ?_, choices⟩
        obtain ⟨a, member, same⟩ := List.mem_map.mp again
        obtain ⟨i, -, rfl⟩ := List.mem_map.mp member
        exact choice_is_not_token .perAction b.name b.name i same
  · exact List.nodup_nil

theorem auxiliaries_distinct (method : WheelMethod) (bs : List (Action R)) (distinct : (bs.map Action.name).Nodup) :
    ((bs.flatMap (auxiliaryOf method)).map Atom.name).Nodup := by
  rw [List.map_flatMap, List.nodup_flatMap]
  refine ⟨fun b _ => auxiliary_distinct method b, ?_⟩
  rw [List.nodup_iff_pairwise_ne, List.pairwise_map] at distinct
  refine distinct.imp fun {b c} differ name inFirst inSecond => differ ?_
  obtain ⟨a, ofFirst, rfl⟩ := List.mem_map.mp inFirst
  obtain ⟨e, ofSecond, same⟩ := List.mem_map.mp inSecond
  obtain ⟨-, ⟨i, rfl⟩ | ⟨-, rfl⟩⟩ := mem_auxiliary method b a ofFirst
  · obtain ⟨-, ⟨j, rfl⟩ | ⟨-, rfl⟩⟩ := mem_auxiliary method c e ofSecond
    · exact (choice_name_injective _ _ j i same).1.symm
    · exact absurd same.symm (choice_is_not_token .perAction b.name c.name i)
  · obtain ⟨-, ⟨j, rfl⟩ | ⟨-, rfl⟩⟩ := mem_auxiliary method c e ofSecond
    · exact absurd same (choice_is_not_token .perAction c.name b.name j)
    · exact (token_name_injective _ _ same).symm

theorem wheel_predicates_distinct (method : WheelMethod) (bs : List (Action R)) (distinct : (bs.map Action.name).Nodup) :
    ((wheelPredicates method (bs.flatMap (auxiliaryOf method))).map Atom.name).Nodup := by
  have fresh (name : String) (noChoice : ∀ b i, choiceName b i ≠ name)
      (noToken : method = .perAction → ∀ b, tokenName .perAction b ≠ name) :
      name ∉ (bs.flatMap (auxiliaryOf method)).map Atom.name := by
    intro member
    obtain ⟨a, listed, same⟩ := List.mem_map.mp member
    obtain ⟨b, -, ofAction⟩ := List.mem_flatMap.mp listed
    obtain ⟨-, ⟨i, rfl⟩ | ⟨method, rfl⟩⟩ := mem_auxiliary method b a ofAction
    · exact noChoice b.name i same
    · exact noToken method b.name same
  have others := auxiliaries_distinct method bs distinct
  have next := fresh nextName choice_is_not_next fun _ => token_is_not_next .perAction
  cases method with
  | perAction => exact List.nodup_cons.mpr ⟨next, others⟩
  | shared =>
      have now := fresh nowName (fun b i => choice_is_not_token .shared b b i) nofun
      have differ : nextName ≠ nowName := by decide
      exact List.nodup_cons.mpr ⟨List.not_mem_cons_of_ne_of_not_mem differ next, List.nodup_cons.mpr ⟨now, others⟩⟩

theorem wheel_predicates_reserved (method : WheelMethod) (bs : List (Action R)) :
    ∀ a ∈ wheelPredicates method (bs.flatMap (auxiliaryOf method)), reserved a.name = true := by
  refine List.forall_mem_append.mpr ⟨List.forall_mem_cons.mpr ⟨next_reserved, ?_⟩, fun a member => ?_⟩
  · cases method with
    | shared => exact List.forall_mem_singleton.mpr (token_reserved .shared "")
    | perAction => simp
  · obtain ⟨b, -, ofAction⟩ := List.mem_flatMap.mp member
    obtain ⟨-, ⟨i, rfl⟩ | ⟨-, rfl⟩⟩ := mem_auxiliary method b a ofAction
    · exact choice_reserved b.name i
    · exact token_reserved .perAction b.name

theorem auxiliary_empty (method : WheelMethod) (b : Action R) (nonempty : b.outcomes ≠ [])
    (none : auxiliaryOf method b = []) : isWheeled b = false := by
  by_contra wheel
  rw [Bool.not_eq_false] at wheel
  rw [auxiliaryOf, if_pos wheel] at none
  cases method with
  | shared =>
      have positive := List.length_pos_iff.mpr nonempty
      simp only [List.map_eq_nil_iff, List.range_eq_nil] at none
      omega
  | perAction => cases none

theorem with_wheel_declared (method : WheelMethod) (bs : List (Action R)) (distinct : (bs.map Action.name).Nodup)
    (d : Domain R) (declared : d.Declared) (plain : ∀ a ∈ d.predicates, reserved a.name = false)
    (actions : List (Action R)) (requirements : RequirementSet) (functions : List Atom)
    (parameters : ∀ v ∈ actions, Domain.Known (d.types.insert stepType "object") v.parameters) :
    (withWheel method (bs.flatMap (auxiliaryOf method)) { d with actions, requirements, functions }).Declared := by
  have added (kind : String) (known : d.types.contains kind = true) :
      (d.types.insert stepType "object").contains kind = true := (d.types.contains_insert _ _ kind).mpr (.inr known)
  constructor
  · exact Substitution.insert_distinct _ _ _ declared.distinctTypes
  · intro t member kind typed
    obtain ⟨pair, listed, rfl⟩ := List.mem_map.mp member
    cases typed
    rcases Substitution.mem_insert d.types.parents _ _ pair listed with rfl | known
    · rfl
    · exact added _ (declared.types _ (List.mem_map_of_mem known) _ rfl)
  · exact declared.distinctConstants
  · exact fun t member kind typed => added kind (declared.constants t member kind typed)
  · rw [withWheel, List.map_append, List.nodup_append]
    refine ⟨declared.distinctPredicates, wheel_predicates_distinct method bs distinct, ?_⟩
    intro name own other onWheel same
    obtain ⟨a, known, rfl⟩ := List.mem_map.mp own
    obtain ⟨e, listed, rfl⟩ := List.mem_map.mp onWheel
    have reserved := wheel_predicates_reserved method bs e listed
    rw [← same, plain a known] at reserved
    cases reserved
  · exact parameters

-- The names that a wheel declares are not in use, and actions are told apart.
structure Unclaimed (d : Domain R) (objects : List Term) : Prop where
  actions : (d.actions.map Action.name).Nodup
  predicates : ∀ a ∈ d.predicates, reserved a.name = false
  objects : ∀ t ∈ d.constants ++ objects, reserved t.name = false

end Hindsight

namespace Strategy

variable [Number R]

theorem apply_cases (strategy : Strategy R) (d : Domain R) (nonempty : ∀ b ∈ d.actions, b.outcomes ≠ []) :
    (strategy.apply d = d.classical (d.actions.flatMap strategy.variants) ∧
      (strategy.usesWheel = true → ∀ b ∈ d.actions, Hindsight.isWheeled b = false)) ∨
    ∃ method, strategy.usesWheel = true ∧ strategy.apply d =
      Hindsight.withWheel method (d.actions.flatMap (Hindsight.auxiliaryOf method))
        (d.classical (d.actions.flatMap strategy.variants)) := by
  cases strategy with
  | allOutcome | singleOutcome | alphaCost => exact .inl ⟨rfl, nofun⟩
  | hindsight method size transformRewards =>
      have applied := Hindsight.declare_wheel_cases method (d.actions.flatMap (Hindsight.auxiliaryOf method))
        (d.classical (d.actions.flatMap (Hindsight.variants method transformRewards)))
      by_cases unneeded : (d.actions.flatMap (Hindsight.auxiliaryOf method)).isEmpty = true
      · rw [if_pos unneeded] at applied
        refine .inl ⟨applied, fun _ b member => Hindsight.auxiliary_empty method b (nonempty b member) ?_⟩
        exact List.flatMap_eq_nil_iff.mp (List.isEmpty_iff.mp unneeded) b member
      · rw [if_neg unneeded] at applied
        exact .inr ⟨method, rfl, applied⟩

theorem nonempty_outcomes (d d' : Domain R) (preprocessed : d.preprocess = .ok d') : ∀ b ∈ d'.actions, b.outcomes ≠ [] :=
  Domain.preprocess_nonempty d.actions d'.actions (Domain.preprocess_actions d d' preprocessed).1

omit [Number R] in
theorem classical_again (d d' : Domain R) (shape : d' = { d with actions := d'.actions }) (actions : List (Action R)) :
    d'.classical actions = d.classical actions := by
  rw [shape]
  rfl

theorem steps_typed (strategy : Strategy R) (d : Domain R) (nonempty : ∀ b ∈ d.actions, b.outcomes ≠ [])
    (wheel : strategy.usesWheel = true) (b : Action R) (member : b ∈ d.actions) (wheeled : Hindsight.isWheeled b = true) :
    .typing ∈ (strategy.apply d).requirements ∧ (strategy.apply d).types.contains Hindsight.stepType = true := by
  rcases strategy.apply_cases d nonempty with ⟨-, unneeded⟩ | ⟨method, -, applied⟩
  · rw [unneeded wheel b member] at wheeled
    cases wheeled
  · rw [applied, Hindsight.withWheel, RequirementSet.mem_union, Hierarchy.contains_insert]
    exact ⟨.inr (by simp), .inl rfl⟩

theorem auxiliary_reads (method : WheelMethod) (bs : List (Action R)) (names : ∀ b ∈ bs, IsName b.name) :
    ∀ a ∈ bs.flatMap (Hindsight.auxiliaryOf method), ∃ name, IsName name ∧ a = Hindsight.unary name := by
  intro a member
  obtain ⟨b, known, ofAction⟩ := List.mem_flatMap.mp member
  obtain ⟨-, ⟨i, rfl⟩ | ⟨-, rfl⟩⟩ := Hindsight.mem_auxiliary method b a ofAction
  · exact ⟨_, Hindsight.choice_reads b.name i (names b known), rfl⟩
  · exact ⟨_, Hindsight.token_reads .perAction b.name (names b known), rfl⟩

theorem preprocessed_names (d d' : Domain R) (preprocessed : d.preprocess = .ok d') (names : ∀ a ∈ d.actions, IsName a.name) :
    ∀ b ∈ d'.actions, IsName b.name := by
  intro b member
  obtain ⟨a, given, became⟩ := forall_two_right _ _ _ (Domain.preprocess_actions d d' preprocessed).1 b member
  rw [(Action.preprocess_keeps a b became).1]
  exact names a given

theorem apply_legible (strategy : Strategy R) (d d' : Domain R) (preprocessed : d.preprocess = .ok d')
    (given : ∀ oneOf ∈ Effect.gates, licence oneOf → other oneOf) (legible : d.Legible licence fun _ => True)
    (preconditions : ∀ a ∈ d.actions, a.precondition.Legible licence fun _ => True)
    (licensed : other [.disjunctivePreconditions]) (fluents : other fluentRequirements)
    (typing : .typing ∈ (strategy.apply d').requirements → other [.typing]) :
    (strategy.apply d').Legible other (fun _ => True) ∧
      ∀ v ∈ (strategy.apply d').actions, v.precondition.Legible other fun _ => True := by
  have queries : ∀ oneOf ∈ Query.gates, licence oneOf → other oneOf := (List.forall_mem_cons.mp given).2
  have nonempty := nonempty_outcomes d d' preprocessed
  have asked : ∀ v ∈ (strategy.apply d').actions, v.precondition.Legible other fun _ => True := by
    refine strategy.forall_applied d d' preprocessed _ fun a known b _ became i outcome _ => ?_
    obtain ⟨name, -, precondition⟩ := Action.preprocess_keeps a b became
    refine commit_asks licensed strategy b i outcome (name ▸ (legible.actions a known).name) ?_
    exact precondition ▸ a.precondition.legible_gates queries (preconditions a known)
  have each : ∀ v ∈ (strategy.apply d').actions, v.Legible other fun _ => True := by
    refine strategy.forall_applied d d' preprocessed _ fun a known b member became i outcome inOutcomes => ?_
    obtain ⟨name, parameters, precondition⟩ := Action.preprocess_keeps a b became
    have base := legible.actions a known
    have spelled := Action.preprocess_becomes (Effect.spelled_expands licensed) a b
      (Effect.legible_spelled given a.effect base.effect) became outcome inOutcomes
    have certain := Action.preprocess_deterministic a b became outcome inOutcomes
    refine commit_legible licensed fluents strategy b i outcome (name ▸ base.name) ?_ ?_ certain spelled ?_
    · rw [parameters]
      exact fun t inParameters => ⟨(base.parameters t inParameters).1, fun kind typed =>
        ((base.parameters t inParameters).2 kind typed).imp_right (queries _ (by decide))⟩
    · exact precondition ▸ a.precondition.legible_gates queries (preconditions a known)
    · exact fun wheel wheeled => typing (strategy.steps_typed d' nonempty wheel b member wheeled).1
  rw [strategy.apply_actions] at each
  have classical := d.classical_legible given legible fluents _ each
  rw [← classical_again d d' (Domain.preprocess_actions d d' preprocessed).2] at classical
  refine ⟨?_, asked⟩
  rcases strategy.apply_cases d' nonempty with ⟨applied, -⟩ | ⟨method, -, applied⟩
  · rwa [applied]
  · have names := preprocessed_names d d' preprocessed fun a known => (legible.actions a known).name
    rw [applied] at typing ⊢
    refine Hindsight.with_wheel_legible method _ _ classical (typing ?_) (auxiliary_reads method d'.actions names)
    rw [Hindsight.withWheel, RequirementSet.mem_union]
    exact .inr (by simp)

theorem apply_keeps (strategy : Strategy R) (d d' : Domain R) (preprocessed : d.preprocess = .ok d') :
    (strategy.apply d').constants = d.constants ∧
      ∀ kind, d.types.contains kind = true → (strategy.apply d').types.contains kind = true := by
  obtain ⟨requirements, functions, classical⟩ := d.classical_shape (d'.actions.flatMap strategy.variants)
  rw [← classical_again d d' (Domain.preprocess_actions d d' preprocessed).2] at classical
  rcases strategy.apply_cases d' (nonempty_outcomes d d' preprocessed) with ⟨applied, -⟩ | ⟨method, -, applied⟩
  · rw [applied, classical]
    exact ⟨rfl, fun _ => id⟩
  · rw [applied, classical]
    exact ⟨rfl, fun kind known => (d.types.contains_insert _ _ kind).mpr (.inr known)⟩

theorem applied_parameters (strategy : Strategy R) (d d' : Domain R) (preprocessed : d.preprocess = .ok d')
    (declared : d.Declared) : ∀ v ∈ (strategy.apply d').actions, Domain.Known (strategy.apply d').types v.parameters := by
  have types := (strategy.apply_keeps d d' preprocessed).2
  refine strategy.forall_applied d d' preprocessed _ fun a known b member became i outcome _ => ?_
  refine strategy.commit_parameters_keep _ b i outcome ?_ fun wheel wheeled => ?_
  · rw [(Action.preprocess_keeps a b became).2.1]
    exact fun t inParameters kind typed => types kind (declared.parameters a known t inParameters kind typed)
  · have typed := (strategy.steps_typed d' (nonempty_outcomes d d' preprocessed) wheel b member wheeled).2
    simp [Hindsight.stepTerm, typed]

theorem apply_declared (strategy : Strategy R) (d d' : Domain R) (preprocessed : d.preprocess = .ok d')
    (declared : d.Declared) (objects : List Term) (apart : strategy.usesWheel = true → Hindsight.Unclaimed d objects) :
    (strategy.apply d').Declared := by
  obtain ⟨each, shape⟩ := Domain.preprocess_actions d d' preprocessed
  have parameters := strategy.applied_parameters d d' preprocessed declared
  obtain ⟨requirements, functions, classical⟩ := d.classical_shape (d'.actions.flatMap strategy.variants)
  rw [← classical_again d d' shape] at classical
  rcases strategy.apply_cases d' (nonempty_outcomes d d' preprocessed) with ⟨applied, -⟩ | ⟨method, wheel, applied⟩
  · rw [applied, classical] at parameters ⊢
    exact ⟨declared.distinctTypes, declared.types, declared.distinctConstants, declared.constants,
      declared.distinctPredicates, parameters⟩
  · have distinct : (d'.actions.map Action.name).Nodup := by
      rw [Domain.preprocess_names _ _ each]
      exact (apart wheel).actions
    rw [applied, classical] at parameters ⊢
    exact Hindsight.with_wheel_declared method d'.actions distinct d declared (apart wheel).predicates _ _ _ parameters

end Strategy

end Replan
