import Replan.Proofs.Determinize.Naming
import Replan.Proofs.Determinize.WheelRuns
import Replan.Proofs.Determinize.Projection
import Replan.Source.ProblemFile

set_option autoImplicit false

namespace Replan

open Results Names

theorem Universe.mem_bindings_append (u : Universe) (xs ys : List Term) (σ : Substitution)
    (member : σ ∈ u.bindings (xs ++ ys)) :
    ∃ τ ∈ u.bindings xs, ∀ name, (∀ y ∈ ys, y.name ≠ name) → σ.lookup? name = τ.lookup? name := by
  rw [bindings, List.foldl_append] at member
  obtain ⟨τ, known, agree⟩ := u.mem_extended ys (u.bindings xs) σ member
  exact ⟨τ, known, fun name other => (agree name).1 (by simpa using other)⟩

variable {R : Type} [Number R]

theorem Determinizer.completed (t t' t'' : Determinizer R) (d : Domain R) (p p' : Problem R)
    (domainSet : t.setDomain d = .ok t') (completed : t'.determinize p = .ok (p', t'')) :
    ∃ d', d.preprocess = .ok d' ∧ t'.versions = .ok ⟨d, d', t.strategy.apply d'⟩ ∧
      p' = (t.strategy.complete d' (classicalProblem (t.strategy.apply d') p) t.dice).1 := by
  obtain ⟨d', preprocessed, rfl⟩ := (set_domain_ok_iff t t' d).mp domainSet
  cases completed
  exact ⟨d', preprocessed, rfl, rfl⟩

theorem Strategy.complete_domain (strategy : Strategy R) (d : Domain R) (p : Problem R) (dice : Dice R) :
    (strategy.complete d p dice).1.domain = p.domain := by
  cases strategy with
  | hindsight method size _ => exact Hindsight.draw_wheel_domain method size d p dice
  | allOutcome | singleOutcome | alphaCost => rfl

theorem Strategy.complete_idle (strategy : Strategy R) (wheelless : strategy.usesWheel = false) (d : Domain R)
    (p : Problem R) (dice : Dice R) : strategy.complete d p dice = (p, dice) := by
  cases strategy with
  | hindsight => cases wheelless
  | allOutcome | singleOutcome | alphaCost => rfl

theorem Strategy.complete_keeps (strategy : Strategy R) (wheelless : strategy.usesWheel = false) (d : Domain R)
    (p : Problem R) (dice : Dice R) : (strategy.complete d p dice).1 = p :=
  congrArg Prod.fst (strategy.complete_idle wheelless d p dice)

theorem Determinizer.wheelless_completes (t : Determinizer R) (wheelless : t.strategy.usesWheel = false)
    (p : Problem R) (d : Domain R) (preprocessed : p.domain.preprocess = .ok d) :
    ∃ t' t'', t.setDomain p.domain = .ok t' ∧
      t'.determinize p = .ok (classicalProblem (t.strategy.apply d) p, t'') := by
  let versions : Versions R := ⟨p.domain, d, t.strategy.apply d⟩
  let classical := classicalProblem (t.strategy.apply d) p
  refine ⟨{ t with current := some versions },
    { t with current := some versions, dice := (t.strategy.complete d classical t.dice).2 },
    (set_domain_ok_iff t _ p.domain).mpr ⟨d, preprocessed, rfl⟩, ?_⟩
  exact congrArg Except.ok (Prod.ext (t.strategy.complete_keeps wheelless d classical t.dice) rfl)

-- The parameters of actions range over nothing but the objects of the problem, and are told apart from the
-- parameters that a wheel adds.
structure Hindsight.KeepsApart (d : Domain R) : Prop where
  ranged : ∀ a ∈ d.actions, ∀ x ∈ a.parameters, Ranged x ∧ reserved x.name = false
  topmost : d.types.parent? "object" = none
  plainTypes : ∀ pair ∈ d.types.parents, reserved pair.1 = false ∧ reserved pair.2 = false

theorem Hindsight.ranges_kept (method : WheelMethod) (size : Nat) (transformRewards : Bool) (p q : Problem R)
    (d : Domain R) (dice : Dice R) (shape : d = { p.domain with actions := d.actions })
    (made : q = Determinizer.classicalProblem (determinize method transformRewards d) p)
    (topmost : p.domain.types.parent? "object" = none)
    (plainTypes : ∀ pair ∈ p.domain.types.parents, reserved pair.1 = false ∧ reserved pair.2 = false)
    (x : Term) (ranged : Ranged x) :
    (drawWheel method size d q dice).1.world.objectsOf x.kind = p.world.objectsOf x.kind := by
  obtain ⟨kind, typed, below, plain⟩ := ranged
  obtain ⟨-, -, added, enlarged, kinds⟩ := draw_wheel_keeps method size d q dice
  obtain ⟨constants, types⟩ := determinized_types method transformRewards d
  have stepReserved : reserved stepType = true := by simp [reserved, stepType, List.isPrefixOf]
  have differs (name : String) (plain : reserved name = false) : name ≠ stepType := by
    rintro rfl
    rw [plain] at stepReserved
    cases stepReserved
  have given : d.constants = p.domain.constants ∧ d.types = p.domain.types := by rw [shape]; exact ⟨rfl, rfl⟩
  have domain : q.domain = determinize method transformRewards d := by rw [made]; rfl
  have objects : q.objects = p.objects := by rw [made]; rfl
  rw [typed, Problem.world, Problem.world, draw_wheel_domain, enlarged, domain, constants, objects, given.1,
    ← List.append_assoc]
  rw [given.2] at types
  exact Universe.objects_of_enlarged _ _ _ _ stepType kind (by decide) topmost
    (fun pair member => ⟨differs _ (plainTypes pair member).1, differs _ (plainTypes pair member).2⟩) types kinds
    below (differs kind plain)

theorem Strategy.classical_world (strategy : Strategy R) (wheelless : strategy.usesWheel = false) (d : Domain R)
    (p : Problem R) (dice : Dice R) (shape : d = { p.domain with actions := d.actions }) :
    (strategy.complete d (Determinizer.classicalProblem (strategy.apply d) p) dice).1.world = p.world := by
  have given : d.constants = p.domain.constants ∧ d.types = p.domain.types := by rw [shape]; exact ⟨rfl, rfl⟩
  have kept (actions : List (Action R)) :
      (d.classical actions).constants = p.domain.constants ∧ (d.classical actions).types = p.domain.types := by
    obtain ⟨types, constants⟩ := classical_keeps d actions
    exact ⟨constants.trans given.1, types.trans given.2⟩
  cases strategy with
  | allOutcome | singleOutcome | alphaCost =>
      rw [Problem.world, Problem.world]
      exact congrArg₂ Universe.ofObjects (congrArg (· ++ p.objects) (kept _).1) (kept _).2
  | hindsight => cases wheelless

omit [Number R] in
theorem steps_agree (parameters : List Term) (σ τ : Substitution)
    (agree : ∀ x ∈ parameters, σ.lookup? x.name = τ.lookup? x.name) :
    (parameters.map (Term.bind σ)).map Term.name = (parameters.map (Term.bind τ)).map Term.name := by
  rw [List.map_map, List.map_map]
  refine List.map_congr_left fun x member => ?_
  simp only [Function.comp_apply, Term.bind, agree x member]

/-- Every instance of a variant is traced to an instance of its base action, as long as the parameters of actions are
kept apart from those of a wheel. -/
theorem variants_trace_to_base_instances (t t' t'' : Determinizer R) (p p' : Problem R)
    (domainSet : t.setDomain p.domain = .ok t') (completed : t'.determinize p = .ok (p', t''))
    (distinct : (p.domain.actions.map Action.name).Nodup)
    (apart : t.strategy.usesWheel = true → Hindsight.KeepsApart p.domain) :
    ∀ g ∈ p'.groundActions, ∃ o, t''.trace g.step = .ok o ∧ ∃ b ∈ p.groundActions, b.step = o.base := by
  intro g listed
  obtain ⟨d, preprocessed, current, made⟩ := t.completed t' t'' p.domain p p' domainSet completed
  obtain ⟨each, shape⟩ := Domain.preprocess_actions p.domain d preprocessed
  have applied : p'.domain = t.strategy.apply d := by
    rw [made, Strategy.complete_domain]
    rfl
  have names : ((t.strategy.apply d).actions.map Action.name).Nodup := by
    rw [Strategy.apply_actions]
    exact t.strategy.names_distinct d.actions (by rwa [Domain.preprocess_names _ _ each])
  obtain ⟨v, isVariant, instances⟩ := List.mem_flatMap.mp listed
  obtain ⟨σ, assigned, rfl⟩ := List.mem_map.mp instances
  rw [applied] at isVariant
  have inFamily := isVariant
  rw [Strategy.apply_actions] at inFamily
  obtain ⟨c, member, ofBase⟩ := List.mem_flatMap.mp inFamily
  obtain ⟨⟨i, probability, commits⟩, wheelless⟩ := t.strategy.variant_commits c v ofBase
  obtain ⟨a, known, became⟩ := forall_two_right _ _ _ each c member
  obtain ⟨name, parameters, -⟩ := Action.preprocess_keeps a c became
  obtain ⟨more, together, steps⟩ := commits.parameters
  rw [together] at assigned
  obtain ⟨τ, ofParameters, agree⟩ := p'.world.mem_bindings_append c.parameters more σ assigned
  -- What follows the parameters of the base action belongs to a wheel.
  have agreeing : ∀ x ∈ c.parameters, σ.lookup? x.name = τ.lookup? x.name := by
    intro x inParameters
    refine agree x.name fun y added same => ?_
    cases wheel : t.strategy.usesWheel with
    | false =>
        have none : more = [] := List.append_right_eq_self.mp (together.symm.trans (wheelless wheel))
        rw [none] at added
        cases added
    | true =>
        rw [parameters] at inParameters
        have plain := ((apart wheel).ranged a known x inParameters).2
        rw [← same, steps y added] at plain
        cases plain
  have ranges : p'.world.bindings c.parameters = p.world.bindings a.parameters := by
    rw [parameters, made]
    cases wheel : t.strategy.usesWheel with
    | false => rw [t.strategy.classical_world wheel d p t.dice shape]
    | true =>
        have plain := apart wheel
        refine Universe.bindings_congr _ _ _ fun x inParameters => ?_
        obtain ⟨method, size, transformRewards, strategy⟩ :
            ∃ method size transformRewards, t.strategy = .hindsight method size transformRewards := by
          cases shape : t.strategy with
          | hindsight method size transformRewards => exact ⟨method, size, transformRewards, rfl⟩
          | _ => rw [shape] at wheel; cases wheel
        rw [strategy]
        exact Hindsight.ranges_kept method size transformRewards p _ d t.dice shape rfl plain.topmost
          plain.plainTypes x (plain.ranged a known x inParameters).1
  have arity : ((c.parameters.map (Term.bind σ)).map Term.name).length = c.parameters.length := by simp
  refine ⟨_, trace_of_variant t'' _ ((determinize_keeps t' t'' p p' completed).trans current) names c v isVariant i
    probability commits _ ?_, a.bind τ, ?_, ?_⟩
  · simp [Action.bind, together]
  · exact List.mem_flatMap.mpr ⟨a, known, List.mem_map_of_mem (ranges ▸ ofParameters)⟩
  · rw [Action.step, Action.bind, Action.bind, together, name, List.map_append, List.map_append,
      List.take_left' arity, steps_agree c.parameters σ τ agreeing, parameters]

theorem coins_kept_apart : Hindsight.KeepsApart coins where
  ranged a member x inParameters := by
    have typed : x = coin := by
      simp only [coins, List.mem_cons, List.not_mem_nil, or_false] at member
      rcases member with rfl | rfl <;> simpa [toss, polish] using inParameters
    subst typed
    exact ⟨⟨"coin", rfl, by decide, by decide⟩, by decide⟩
  topmost := by decide
  plainTypes := by decide

theorem variants_trace_to_base_instances_toss :
    ∃ t' p' t'' g o, (Determinizer.ofDice (.hindsight .shared 2 true) (Dice.always (0 : ℚ))).setDomain
        twoCoins.domain = .ok t' ∧ t'.determinize twoCoins = .ok (p', t'') ∧ g ∈ p'.groundActions ∧
      g.step = ⟨"toss_o0", ["cent", "hs-0", "hs-1"]⟩ ∧ t''.trace g.step = .ok o ∧
      ∃ b ∈ twoCoins.groundActions, b.step = o.base := by
  have tossed : (do
      let t' ← (Determinizer.ofDice (.hindsight .shared 2 true) (Dice.always (0 : ℚ))).setDomain twoCoins.domain
      let completed ← t'.determinize twoCoins
      pure (decide (∃ g ∈ completed.1.groundActions, g.step = Ground.mk "toss_o0" ["cent", "hs-0", "hs-1"]))).toOption =
        some true := by decide +kernel
  rw [to_option_iff] at tossed
  simp only [bind_ok_iff, pure_ok_iff, decide_eq_true_iff] at tossed
  obtain ⟨t', domainSet, ⟨p', t''⟩, completed, g, listed, step⟩ := tossed
  obtain ⟨o, traced, known⟩ := variants_trace_to_base_instances _ t' t'' twoCoins p' domainSet completed (by decide)
    (fun _ => coins_kept_apart) g listed
  exact ⟨t', p', t'', g, o, domainSet, completed, listed, step, traced, known⟩

def untypedCoins : String :=
  "(define (domain coins)\n" ++
  "  (:requirements :probabilistic-effects)\n" ++
  "  (:predicates (heads ?c))\n" ++
  "  (:action toss\n" ++
  "    :parameters (?c)\n" ++
  "    :effect (probabilistic 0.5 (heads ?c))))"

def oneCoin : String :=
  "(define (problem one-coin) (:domain coins) (:objects cent) (:init) (:goal (heads cent)))"

/-- A parameter without a type ranges over the steps of the wheel too, where the base action has no instance. -/
theorem untyped_parameters_range_over_steps :
    ∃ (d : Domain Float) (p p' : Problem Float) (t' t'' : Determinizer Float) (o : OutcomeTrace Float),
      Domain.parse untypedCoins = .ok d ∧ Problem.parse d oneCoin = .ok p ∧ (d.actions.map Action.name).Nodup ∧
      (Determinizer.ofDice (.hindsight .shared 1 false) (Dice.seeded 0)).setDomain d = .ok t' ∧
      t'.determinize p = .ok (p', t'') ∧
      ∃ g ∈ p'.groundActions, t''.trace g.step = .ok o ∧ ∀ b ∈ p.groundActions, b.step ≠ o.base := by
  have tossed : (do
      let d ← Domain.parse untypedCoins
      let p ← Problem.parse d oneCoin
      let t' ← (Determinizer.ofDice (.hindsight .shared 1 false) (Dice.seeded 0)).setDomain d
      let completed ← t'.determinize p
      let o ← completed.2.trace ⟨"toss_o0", ["hs-0", "hs-0", "hs-0"]⟩
      pure (decide ((d.actions.map Action.name).Nodup ∧
        (∃ g ∈ completed.1.groundActions, g.step = Ground.mk "toss_o0" ["hs-0", "hs-0", "hs-0"]) ∧
        ∀ b ∈ p.groundActions, Action.step b ≠ o.base))).toOption = some true := by decide +kernel
  rw [to_option_iff] at tossed
  simp only [bind_ok_iff, pure_ok_iff, decide_eq_true_iff] at tossed
  obtain ⟨d, domainRead, p, problemRead, t', domainSet, ⟨p', t''⟩, completed, o, traced, distinct, ⟨g, listed, step⟩,
    invented⟩ := tossed
  exact ⟨d, p, p', t', t'', o, domainRead, problemRead, distinct, domainSet, completed, g, listed, step ▸ traced,
    invented⟩

end Replan
