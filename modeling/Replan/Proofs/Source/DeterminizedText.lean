import Replan.Proofs.Source.ClassicalText

set_option autoImplicit false

namespace Replan

open Results Source Names

namespace Sorted

theorem mem_put {α β : Type} [LT α] [DecidableLT α] [DecidableEq α] (key : α) (value : β) (entries : List (α × β))
    (entry : α × β) (member : entry ∈ put key value entries) : entry = (key, value) ∨ entry ∈ entries := by
  induction entries with
  | nil => exact .inl (List.mem_singleton.mp member)
  | cons first rest ih =>
      rw [put] at member
      split at member
      · exact (List.mem_cons.mp member).imp_right (List.mem_cons_of_mem first)
      · split at member
        · exact List.mem_cons.mp member
        · rcases List.mem_cons.mp member with rfl | later
          · exact .inr List.mem_cons_self
          · exact (ih later).imp_right (List.mem_cons_of_mem first)

end Sorted

theorem Source.ground_reads (name : String) (args : List String) (isName : IsName name) (names : ∀ a ∈ args, IsName a) :
    AtomReads (Ground.atom ⟨name, args⟩) :=
  ⟨isName, List.forall_mem_map.mpr fun a member => ⟨rfl, .inl (names a member)⟩⟩

variable {R : Type} [Number R] {licence other : RequirementSet → Prop}

namespace Determinizer

theorem mem_classical_values (d : Domain R) (values : List (Ground × R)) (entry : Ground × R)
    (member : entry ∈ classicalValues d values) : entry.1 = totalCostAtom.ground ∨ entry ∈ values := by
  have kept (found : entry ∈ Sorted.drop rewardAtom.ground values) : entry ∈ values := (List.mem_filter.mp found).1
  unfold classicalValues at member
  simp only at member
  split at member
  · rcases Sorted.mem_put _ _ _ entry member with rfl | known
    · exact .inl rfl
    · exact .inr (kept known)
  · exact .inr (kept member)

theorem classical_values_ordered (d : Domain R) (values : List (Ground × R))
    (ordered : (values.map Prod.fst).Pairwise (· < ·)) : ((classicalValues d values).map Prod.fst).Pairwise (· < ·) := by
  have kept : ((Sorted.drop rewardAtom.ground values).map Prod.fst).Pairwise (· < ·) :=
    ordered.sublist (List.filter_sublist.map Prod.fst)
  unfold classicalValues
  simp only
  split
  · rw [Sorted.put_keys]
    exact Sorted.insert_ordered _ _ kept
  · exact kept

theorem classical_problem_legible (d : Domain R) (p : Problem R) (legible : p.Legible licence fun _ => True)
    (name : IsName d.name) (objects : Declares IsName other p.objects)
    (goal : p.goal.query.Legible other fun _ => True) (fluents : d.usesCosts = true → other fluentRequirements) :
    (classicalProblem d p).Legible other fun _ => True := by
  constructor
  · exact legible.name
  · exact name
  · exact objects
  · exact legible.facts
  · intro entry member
    rcases mem_classical_values d p.init.values entry member with isCost | known
    · rw [isCost]
      exact ⟨ground_reads _ [] (by decide) (by simp), trivial⟩
    · exact legible.values entry known
  · exact ⟨legible.ordered.facts, classical_values_ordered d p.init.values legible.ordered.values⟩
  · exact goal
  · simp [classicalProblem]
  · intro metric measured
    simp only [classicalProblem, Option.mem_def, Option.ite_none_right_eq_some, Option.some.injEq] at measured
    obtain ⟨uses, rfl⟩ := measured
    exact ⟨Effect.cost_reads, fluents uses⟩

end Determinizer

namespace Hindsight

theorem cycle_reads (size : Nat) : ∀ fact ∈ cycle size, AtomReads fact.atom := by
  intro fact member
  obtain ⟨k, -, rfl⟩ := (mem_cycle size fact).mp member
  exact ground_reads _ _ (by decide) (by simp [step_reads])

theorem tokens_read (method : WheelMethod) (names : List String) (each : ∀ a ∈ names, IsName a) :
    ∀ fact ∈ tokens method names, AtomReads fact.atom := by
  cases method with
  | shared => exact List.forall_mem_singleton.mpr (ground_reads _ _ (by decide) (by simp [step_reads]))
  | perAction =>
      refine List.forall_mem_map.mpr fun a member => ?_
      exact ground_reads _ _ (token_reads .perAction a (each a member)) (by simp [step_reads])

theorem choices_read (wheelSize : Nat) (d : Domain R) (dice : Dice R) (names : ∀ a ∈ wheelNames d, IsName a) :
    ∀ fact ∈ drawnChoices wheelSize d dice, AtomReads fact.atom := by
  intro fact member
  obtain ⟨j, a, probabilities, k, step, listed, found, rfl⟩ := (mem_draw_actions _ dice _ fact).mp member
  obtain ⟨-, rfl⟩ := (steps_at _ k step).mp found
  refine ground_reads _ _ (choice_reads a _ (names a ?_)) (by simp [step_reads])
  exact List.mem_map_of_mem (f := Prod.fst) (List.mem_of_getElem? listed)

def stepObjects (wheelSize : Nat) : List Term := ((List.range (max wheelSize 1)).map stepName).map stepTerm

theorem draw_wheel_cases (method : WheelMethod) (wheelSize : Nat) (d : Domain R) (p : Problem R) (dice : Dice R) :
    (drawWheel method wheelSize d p dice).1 = if (wheeled d).isEmpty then p else
      { p with
        objects := p.objects ++ stepObjects wheelSize
        init := { p.init with
          facts := (cycle (max wheelSize 1) ++ tokens method (wheelNames d) ++ drawnChoices wheelSize d dice).foldl
            (fun set fact => Sorted.insert fact set) p.init.facts } } := by
  unfold drawWheel
  simp only
  split <;> rfl

theorem step_objects_declared (wheelSize : Nat) (typing : licence [.typing]) :
    Declares IsName licence (stepObjects wheelSize) := by
  intro t member
  obtain ⟨step, listed, rfl⟩ := List.mem_map.mp member
  obtain ⟨k, -, rfl⟩ := List.mem_map.mp listed
  refine ⟨step_reads k, ?_⟩
  rintro kind ⟨⟩
  exact ⟨by decide, typing⟩

theorem step_objects_distinct (wheelSize : Nat) : ((stepObjects wheelSize).map Term.name).Nodup := by
  rw [stepObjects, List.map_map, List.map_map]
  exact List.nodup_range.map step_name_injective

theorem step_objects_reserved (wheelSize : Nat) : ∀ t ∈ stepObjects wheelSize, reserved t.name = true := by
  intro t member
  obtain ⟨step, listed, rfl⟩ := List.mem_map.mp member
  obtain ⟨k, -, rfl⟩ := List.mem_map.mp listed
  exact reserved_prefix (toString k)

theorem turning_action (d : Domain R) (needed : ¬(wheeled d).isEmpty = true) : ∃ b ∈ d.actions, isWheeled b = true := by
  obtain ⟨turning, listed⟩ := List.exists_mem_of_ne_nil _ fun none => needed (List.isEmpty_iff.mpr none)
  obtain ⟨b, known, -, several⟩ := (mem_wheel_names d turning.1).mp (List.mem_map_of_mem listed)
  exact ⟨b, known, bne_iff_ne.mpr (Nat.ne_of_gt several)⟩

theorem draw_wheel_legible (method : WheelMethod) (wheelSize : Nat) (d : Domain R) (p : Problem R) (dice : Dice R)
    (legible : p.Legible licence fun _ => True) (names : ∀ b ∈ d.actions, IsName b.name)
    (typing : ∀ b ∈ d.actions, isWheeled b = true → licence [.typing]) :
    (drawWheel method wheelSize d p dice).1.Legible licence fun _ => True := by
  rw [draw_wheel_cases]
  split
  · exact legible
  · next needed =>
      obtain ⟨b, member, turns⟩ := turning_action d needed
      have turning : ∀ a ∈ wheelNames d, IsName a := by
        intro a listed
        obtain ⟨c, known, rfl, -⟩ := (mem_wheel_names d a).mp listed
        exact names c known
      constructor
      · exact legible.name
      · exact legible.domain
      · exact List.forall_mem_append.mpr ⟨legible.objects, step_objects_declared wheelSize (typing b member turns)⟩
      · intro fact known
        rcases (Sorted.mem_insert_all _ _ fact).mp known with onWheel | given
        · simp only [List.mem_append] at onWheel
          rcases onWheel with (next | token) | choice
          · exact cycle_reads _ fact next
          · exact tokens_read method _ turning fact token
          · exact choices_read wheelSize d dice turning fact choice
        · exact legible.facts fact given
      · exact legible.values
      · exact ⟨Sorted.insert_all_ordered _ _ legible.ordered.facts, legible.ordered.values⟩
      · exact legible.goal
      · exact legible.reward
      · exact legible.metric

theorem draw_wheel_declared (method : WheelMethod) (wheelSize : Nat) (d : Domain R) (p : Problem R) (dice : Dice R)
    (declared : p.Declared) (plain : ∀ t ∈ p.domain.constants ++ p.objects, reserved t.name = false)
    (steps : ∀ b ∈ d.actions, isWheeled b = true → p.domain.types.contains stepType = true) :
    (drawWheel method wheelSize d p dice).1.Declared := by
  have apart (t u : Term) (own : t ∈ p.domain.constants ++ p.objects) (step : u ∈ stepObjects wheelSize) :
      t.name ≠ u.name := by
    intro same
    have isReserved := step_objects_reserved wheelSize u step
    rw [← same, plain t own] at isReserved
    cases isReserved
  rw [draw_wheel_cases]
  split
  · exact declared
  · next needed =>
      obtain ⟨b, member, turns⟩ := turning_action d needed
      constructor
      · rw [List.map_append, List.nodup_append]
        refine ⟨declared.distinct, step_objects_distinct wheelSize, fun own known step listed => ?_⟩
        obtain ⟨t, inObjects, rfl⟩ := List.mem_map.mp known
        obtain ⟨u, inSteps, rfl⟩ := List.mem_map.mp listed
        exact apart t u (List.mem_append_right _ inObjects) inSteps
      · refine List.forall_mem_append.mpr ⟨declared.fresh, fun u step => ?_⟩
        refine List.any_eq_false.mpr fun t constant same => ?_
        exact apart t u (List.mem_append_left _ constant) step (beq_iff_eq.mp same).symm
      · refine List.forall_mem_append.mpr ⟨declared.types, fun u step kind typed => ?_⟩
        obtain ⟨name, -, rfl⟩ := List.mem_map.mp step
        cases typed
        exact steps b member turns

end Hindsight

namespace Strategy

variable (strategy : Strategy R) (d : Domain R) (p : Problem R) (dice : Dice R)

theorem complete_legible (legible : p.Legible licence fun _ => True) (names : ∀ b ∈ d.actions, IsName b.name)
    (typing : strategy.usesWheel = true → ∀ b ∈ d.actions, Hindsight.isWheeled b = true → licence [.typing]) :
    (strategy.complete d p dice).1.Legible licence fun _ => True := by
  cases strategy with
  | allOutcome | singleOutcome | alphaCost => exact legible
  | hindsight method size => exact Hindsight.draw_wheel_legible method size d p dice legible names (typing rfl)

theorem complete_declared (declared : p.Declared)
    (plain : strategy.usesWheel = true → ∀ t ∈ p.domain.constants ++ p.objects, reserved t.name = false)
    (steps : strategy.usesWheel = true → ∀ b ∈ d.actions, Hindsight.isWheeled b = true →
      p.domain.types.contains Hindsight.stepType = true) :
    (strategy.complete d p dice).1.Declared := by
  cases strategy with
  | allOutcome | singleOutcome | alphaCost => exact declared
  | hindsight method size =>
      exact Hindsight.draw_wheel_declared method size d p dice declared (plain rfl) (steps rfl)

theorem apply_costs (uses : (strategy.apply d).usesCosts = true) : .actionCosts ∈ (strategy.apply d).requirements := by
  obtain ⟨functions, -, kept⟩ := strategy.apply_classical d
  rw [Domain.uses_costs_iff, functions, ← Domain.uses_costs_iff] at uses
  exact kept _ ((d.classical_requirements _).2 uses)

end Strategy

omit [Number R] in
theorem Source.opens_declared (rs oneOf : RequirementSet) (r : Requirement) (declared : r ∈ rs) (asked : r ∈ oneOf) :
    Opens (RequirementSet.closure rs) oneOf := by
  have itself : r ∈ r.closure := by cases r <;> decide
  exact (opens_iff _ oneOf).mpr ⟨r, asked, (RequirementSet.mem_closure rs r).mpr ⟨r, declared, itself⟩⟩

theorem Strategy.apply_opens (strategy : Strategy R) (d d' : Domain R) (shape : d' = { d with actions := d'.actions })
    (oneOf : RequirementSet) (unaffected : ∀ r ∈ oneOf, r ∉ Requirement.mdpFeatures)
    (opened : Opens (RequirementSet.closure d.requirements) oneOf) :
    Opens (RequirementSet.closure (strategy.apply d').requirements) oneOf := by
  obtain ⟨r, asked, implied⟩ := (opens_iff _ oneOf).mp opened
  obtain ⟨s, declared, implies⟩ := (RequirementSet.mem_closure _ r).mp implied
  have classical : s ∉ Requirement.mdpFeatures := fun feature =>
    unaffected r asked (RequirementSet.mdp_closure r s implies feature ▸ feature)
  have kept := d.classical_requires (d'.actions.flatMap strategy.variants) s declared classical
  rw [← classical_again d d' shape] at kept
  exact (opens_iff _ oneOf).mpr
    ⟨r, asked, (RequirementSet.mem_closure _ r).mpr ⟨s, (strategy.apply_classical d').2.2 s kept, implies⟩⟩

def affectedGates : List RequirementSet := [fluentRequirements, [.disjunctivePreconditions]]

theorem gate_unaffected : ∀ oneOf ∈ Effect.gates, oneOf = fluentRequirements ∨ ∀ r ∈ oneOf, r ∉ Requirement.mdpFeatures := by
  decide

namespace Problem

omit [Number R] in
theorem parse_text_as_read [Number R] [Number.ZerosAlike R] {finite : R → Prop} (readable : Readable finite) (p : Problem R)
    (legible : p.Legible (Opens (RequirementSet.closure p.domain.requirements)) finite) (declared : p.Declared) :
    Problem.parse p.domain.asRead p.text = .ok (p.asRead.withDomain p.domain.asRead) := by
  have constants (t : Term) (fresh : p.domain.constants.any (Term.same t) = false) :
      p.domain.asRead.constants.any (Term.same t) = false := by
    rw [List.any_eq_false] at fresh ⊢
    intro u member
    obtain ⟨v, known, rfl⟩ := List.mem_map.mp member
    rw [Term.same, (Term.spelled_keeps _ v).1]
    exact fresh v known
  have again : (p.withDomain p.domain.asRead).Legible (Opens (RequirementSet.closure p.domain.requirements)) finite :=
    ⟨legible.name, legible.domain, legible.objects, legible.facts, legible.values, legible.ordered, legible.goal,
      legible.reward, legible.metric⟩
  have told : (p.withDomain p.domain.asRead).Declared :=
    ⟨declared.distinct, fun t member => constants t (declared.fresh t member), declared.types⟩
  exact (p.withDomain p.domain.asRead).parse_text readable again told

end Problem

theorem Strategy.applied_legible (strategy : Strategy R) (text : String) (d d' : Domain R)
    (parsed : Domain.parse text = .ok d) (preprocessed : d.preprocess = .ok d')
    (kept : ∀ oneOf ∈ affectedGates, oneOf ∈ (strategy.apply d').needs →
      Opens (RequirementSet.closure (strategy.apply d').requirements) oneOf) :
    (strategy.apply d').Legible (Opens (RequirementSet.closure (strategy.apply d').requirements)) fun _ => True := by
  have opens := strategy.apply_opens d d' (Domain.preprocess_actions d d' preprocessed).2
  have given (oneOf : RequirementSet) (gate : oneOf ∈ Effect.gates)
      (opened : Opens (RequirementSet.closure d.requirements) oneOf) :
      Opens (RequirementSet.closure (strategy.apply d').requirements) oneOf ∨ oneOf ∈ affectedGates := by
    rcases gate_unaffected oneOf gate with rfl | unaffected
    · exact .inr List.mem_cons_self
    · exact .inl (opens oneOf unaffected opened)
  obtain ⟨written, asked⟩ := strategy.apply_legible d d' preprocessed given (Domain.parsed_legible text d parsed).1
    (d.parsed_preconditions text parsed) (.inr (by decide)) (.inr (by decide))
    fun typing => .inl (opens_declared _ _ _ typing (by decide))
  refine (strategy.apply d').legible_needs written fun oneOf needed => ?_
  rcases (strategy.apply d').legible_opens written asked oneOf needed with opened | affected
  · exact opened
  · exact kept oneOf affected needed

theorem Strategy.completed_legible (strategy : Strategy R) (text : String) (d d' : Domain R) (p : Problem R)
    (dice : Dice R) (parsed : Problem.parse d text = .ok p) (preprocessed : d.preprocess = .ok d')
    (isDomain : IsName (strategy.apply d').name) (names : ∀ a ∈ d.actions, IsName a.name)
    (kept : fluentRequirements ∈ p.goal.query.needs →
      Opens (RequirementSet.closure (strategy.apply d').requirements) fluentRequirements)
    (own : ∀ oneOf ∈ Term.needs p.objects ++ p.goal.query.needs, Opens (RequirementSet.closure d.requirements) oneOf) :
    (strategy.complete d' (Determinizer.classicalProblem (strategy.apply d') p) dice).1.Legible
      (Opens (RequirementSet.closure (strategy.apply d').requirements)) fun _ => True := by
  rw [List.forall_mem_append] at own
  have opens := strategy.apply_opens d d' (Domain.preprocess_actions d d' preprocessed).2
  obtain ⟨-, -, legible⟩ := p.parsed_licence d text parsed
  have inGoal (oneOf : RequirementSet) (needed : oneOf ∈ p.goal.query.needs) :
      Opens (RequirementSet.closure (strategy.apply d').requirements) oneOf := by
    rcases gate_unaffected oneOf (List.mem_cons_of_mem _ (p.goal.query.needs_gates oneOf needed)) with rfl | unaffected
    · exact kept needed
    · exact opens oneOf unaffected (own.2 oneOf needed)
  have inObjects (oneOf : RequirementSet) (needed : oneOf ∈ Term.needs p.objects) :
      Opens (RequirementSet.closure (strategy.apply d').requirements) oneOf := by
    refine opens oneOf ?_ (own.1 oneOf needed)
    rw [Query.term_typing p.objects oneOf needed]
    decide
  have classical := Determinizer.classical_problem_legible (strategy.apply d') p legible isDomain
    (declares_needs p.objects legible.objects inObjects) (p.goal.query.legible_needs legible.goal inGoal)
    fun uses => opens_declared _ _ _ (strategy.apply_costs d' uses) (by decide)
  refine strategy.complete_legible d' _ dice classical (preprocessed_names d d' preprocessed names) ?_
  intro wheel b member turns
  exact opens_declared _ _ _ (strategy.steps_typed d' (nonempty_outcomes d d' preprocessed) wheel b member turns).1
    (by decide)

theorem Strategy.completed_declared (strategy : Strategy R) (d d' : Domain R) (p : Problem R) (dice : Dice R)
    (sameDomain : p.domain = d) (declared : p.Declared) (preprocessed : d.preprocess = .ok d')
    (apart : strategy.usesWheel = true → Hindsight.Unclaimed d p.objects) :
    (strategy.complete d' (Determinizer.classicalProblem (strategy.apply d') p) dice).1.Declared := by
  have nonempty := nonempty_outcomes d d' preprocessed
  have steps := strategy.steps_typed d' nonempty
  obtain ⟨constants, types⟩ := strategy.apply_keeps d d' preprocessed
  subst sameDomain
  have classical : (Determinizer.classicalProblem (strategy.apply d') p).Declared :=
    ⟨declared.distinct, fun t member => constants ▸ declared.fresh t member,
      fun t member kind typed => types kind (declared.types t member kind typed)⟩
  have plain (wheel : strategy.usesWheel = true) : ∀ t ∈ (strategy.apply d').constants ++ p.objects, reserved t.name = false :=
    constants ▸ (apart wheel).objects
  exact strategy.complete_declared d' _ dice classical plain fun wheel b member turns => (steps wheel b member turns).2

/-- The texts of a determinized domain and of a problem over it are read back, as long as no licence that they need
has been taken away. -/
theorem determinized_texts_are_read [Number.ZerosAlike R] {finite : R → Prop} (readable : Readable finite)
    (domainText problemText : String) (d : Domain R) (p : Problem R) (domain : Domain.parse domainText = .ok d)
    (problem : Problem.parse d problemText = .ok p) (t t' t'' : Determinizer R) (q : Problem R)
    (domainSet : t.setDomain d = .ok t') (completed : t'.determinize p = .ok (q, t''))
    (known : ∀ x ∈ q.domain.numbers ++ q.numbers, finite x)
    (kept : ∀ oneOf ∈ affectedGates, oneOf ∈ q.domain.needs ++ q.goal.query.needs →
      Opens (RequirementSet.closure q.domain.requirements) oneOf)
    (own : ∀ oneOf ∈ Term.needs p.objects ++ p.goal.query.needs, Opens (RequirementSet.closure d.requirements) oneOf)
    (apart : t.strategy.usesWheel = true → Hindsight.Unclaimed d p.objects) :
    Domain.parse q.domain.text = .ok q.domain.asRead ∧ Problem.parse q.domain q.text = .ok q.asRead ∧
      Problem.parse q.domain.asRead q.text = .ok (q.asRead.withDomain q.domain.asRead) := by
  obtain ⟨d', preprocessed, -, made⟩ := t.completed t' t'' d p q domainSet completed
  have applied : q.domain = t.strategy.apply d' := by
    rw [made, Strategy.complete_domain]
    rfl
  have goal : q.goal.query = p.goal.query := by
    rw [made, (t.strategy.complete_values d' _ t.dice).2]
    rfl
  obtain ⟨legible, declared, -⟩ := Domain.parsed_legible domainText d domain
  obtain ⟨sameDomain, ownDeclared, -⟩ := p.parsed_licence d problemText problem
  rw [List.forall_mem_append] at known
  have domainLegible : q.domain.Legible (Opens (RequirementSet.closure q.domain.requirements)) finite := by
    refine q.domain.legible_numbers ?_ known.1
    rw [applied] at kept ⊢
    exact t.strategy.applied_legible domainText d d' domain preprocessed fun oneOf affected needed =>
      kept oneOf affected (List.mem_append_left _ needed)
  have domainDeclared : q.domain.Declared := by
    rw [applied]
    exact t.strategy.apply_declared d d' preprocessed declared p.objects apart
  have problemLegible : q.Legible (Opens (RequirementSet.closure q.domain.requirements)) finite := by
    have fluents := kept fluentRequirements (by decide)
    rw [goal] at fluents
    rw [applied] at domainLegible fluents ⊢
    have licensed := t.strategy.completed_legible problemText d d' p t.dice problem preprocessed domainLegible.name
      (fun a member => (legible.actions a member).name) (fun needed => fluents (List.mem_append_right _ needed)) own
    rw [← made] at licensed
    exact q.legible_needs licensed known.2 (q.legible_opens licensed)
  have problemDeclared : q.Declared := by
    rw [made]
    exact t.strategy.completed_declared d d' p t.dice sameDomain ownDeclared preprocessed apart
  exact ⟨q.domain.parse_text readable domainLegible domainDeclared, q.parse_text readable problemLegible problemDeclared,
    q.parse_text_as_read readable problemLegible problemDeclared⟩

def spinText : String :=
  "(define (domain spins) (:requirements :typing :fluents :probabilistic-effects :rewards) (:types coin)
    (:predicates (heads ?c - coin)) (:functions (fuel)) (:action spin :parameters (?c - coin)
    :precondition (> (fuel) 0.5)
    :effect (and (probabilistic 0.5 (heads ?c)) (decrease (fuel) 0.5) (increase (reward) 0.5))))"

def oneSpinText : String :=
  "(define (problem one-spin) (:domain spins) (:objects cent - coin) (:init (= (fuel) 0.5)) (:goal (heads cent)))"

theorem determinized_texts_are_read_spin : ∃ (d : Domain Float) (p : Problem Float) (t' t'' : Determinizer Float)
    (q : Problem Float), Domain.parse spinText = .ok d ∧ Problem.parse d oneSpinText = .ok p ∧
      (Determinizer.ofDice (.hindsight .perAction 2 false) (Dice.always 0)).setDomain d = .ok t' ∧
      t'.determinize p = .ok (q, t'') ∧ q.objects.map Term.name = ["cent", "hs-0", "hs-1"] ∧
      (∀ x ∈ q.domain.numbers ++ q.numbers, x = Number.ofDecimal 5 1) ∧
      Domain.parse q.domain.text = .ok q.domain.asRead ∧ Problem.parse q.domain q.text = .ok q.asRead ∧
      Problem.parse q.domain.asRead q.text = .ok (q.asRead.withDomain q.domain.asRead) := by
  have run : (do
      let d ← Domain.parse (R := Float) spinText
      let p ← Problem.parse d oneSpinText
      let t' ← (Determinizer.ofDice (.hindsight .perAction 2 false) (Dice.always 0)).setDomain d
      let (q, t'') ← t'.determinize p
      pure (decide (q.objects.map Term.name = ["cent", "hs-0", "hs-1"] ∧
        (∀ x ∈ q.domain.numbers ++ q.numbers, x = Number.ofDecimal 5 1) ∧
        (∀ oneOf ∈ affectedGates, oneOf ∈ q.domain.needs ++ q.goal.query.needs →
          RequirementSet.disjoint (RequirementSet.closure q.domain.requirements) oneOf = false) ∧
        (∀ oneOf ∈ Term.needs p.objects ++ p.goal.query.needs,
          RequirementSet.disjoint (RequirementSet.closure d.requirements) oneOf = false) ∧
        (d.actions.map Action.name).Nodup ∧ (∀ a ∈ d.predicates, reserved a.name = false) ∧
        ∀ t ∈ d.constants ++ p.objects, reserved t.name = false))).toOption = some true := by
    simp only [Domain.parse, Problem.parse, Cursor.ofText]
    rw [spinText, oneSpinText, String.toList_ofList, String.toList_ofList]
    decide +kernel
  obtain ⟨d, domain, run⟩ := (bind_ok_iff _ _ _).mp ((to_option_iff _ _).mp run)
  obtain ⟨p, problem, run⟩ := (bind_ok_iff _ _ _).mp run
  obtain ⟨t', domainSet, run⟩ := (bind_ok_iff _ _ _).mp run
  obtain ⟨⟨q, t''⟩, completed, run⟩ := (bind_ok_iff _ _ _).mp run
  rw [pure_ok_iff, decide_eq_true_iff] at run
  obtain ⟨objects, known, kept, own, actions, predicates, plain⟩ := run
  have read := determinized_texts_are_read half_readable spinText oneSpinText d p domain problem _ t' t'' q domainSet
    completed known kept own fun _ => ⟨actions, predicates, plain⟩
  exact ⟨d, p, t', t'', q, domain, problem, domainSet, completed, objects, known, read⟩

def fuelText : String :=
  "(define (domain d) (:requirements :rewards) (:predicates (p)) (:functions (fuel))
    (:action a :effect (and (p) (increase (fuel) 1))))"

def tripText : String := "(define (problem prob) (:domain d) (:init (= (fuel) 0)) (:goal (p)))"

/-- Functions that only the requirement `:rewards` licensed stay when that requirement goes. -/
theorem rewards_licensed_functions : ∃ (d : Domain Float) (p : Problem Float) (t : Determinizer Float)
    (versions : Versions Float), Domain.parse fuelText = .ok d ∧ Problem.parse d tripText = .ok p ∧
      (Determinizer.ofDice .allOutcome (Dice.always 0)).setDomain d = .ok t ∧ t.versions = .ok versions ∧
      ∀ e : Domain Float, Domain.parse versions.determinized.text ≠ .ok e := by
  have run : (do
      let d ← Domain.parse (R := Float) fuelText
      let _ ← Problem.parse d tripText
      let t ← (Determinizer.ofDice .allOutcome (Dice.always 0)).setDomain d
      let versions ← t.versions
      pure (!(Domain.parse (R := Float) versions.determinized.text).isOk)).toOption = some true := by
    simp only [Domain.parse, Problem.parse, Cursor.ofText, domain_text]
    rw [fuelText, tripText, String.toList_ofList, String.toList_ofList]
    decide +kernel
  obtain ⟨d, domain, run⟩ := (bind_ok_iff _ _ _).mp ((to_option_iff _ _).mp run)
  obtain ⟨p, problem, run⟩ := (bind_ok_iff _ _ _).mp run
  obtain ⟨t, set, run⟩ := (bind_ok_iff _ _ _).mp run
  obtain ⟨versions, current, run⟩ := (bind_ok_iff _ _ _).mp run
  rw [pure_ok_iff] at run
  refine ⟨d, p, t, versions, domain, problem, set, current, fun e again => ?_⟩
  rw [again] at run
  exact Bool.false_ne_true run

end Replan
