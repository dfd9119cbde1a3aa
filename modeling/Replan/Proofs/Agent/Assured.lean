import Replan.Proofs.Agent.Anchored
import Replan.Proofs.Determinize.Certain
import Replan.Proofs.Effect.Parts

set_option autoImplicit false

namespace Replan

open Results

section Matching

variable {R : Type} [Number R]

theorem State.Matches.after {x x' y y' : State R} (same : x.Matches y) (c c' : Changes R) (leads : c.Lead x x')
    (leads' : c'.Lead y y') (agree : Changes.Agree Effect.everything c c') : x'.Matches y' where
  facts := by rw [leads.facts, leads'.facts, Changes.revise, Changes.revise, agree.adds, agree.deletes, same.facts]
  world := by rw [leads.world, leads'.world, same.world]

theorem State.Matches.holds {x y : State R} (same : x.Matches y) (q : Query R)
    (within : q.Within (Vocabulary.fluentless R)) (σs : List Substitution) : q.evalUnder x σs = q.evalUnder y σs :=
  q.eval_alike _ x y (same.reads _ fun _ => id) within σs

def Strategy.IsLiteral (strategy : Strategy R) : Prop :=
  strategy = .allOutcome ∨ ∃ criterion, strategy = .singleOutcome criterion

theorem Strategy.literal_commits (strategy : Strategy R) (literal : strategy.IsLiteral) (b : Action R) (i : Nat)
    (outcome : R × Effect R) :
    strategy.commit b i outcome = b.variant i outcome.1 outcome.2.withoutRewards.simplify := by
  rcases literal with rfl | ⟨criterion, rfl⟩ <;> rfl

omit [Number R] in
theorem Strategy.literal_wheelless (strategy : Strategy R) (literal : strategy.IsLiteral) :
    strategy.usesWheel = false := by
  rcases literal with rfl | ⟨criterion, rfl⟩ <;> rfl

theorem Effect.literal_gathered (added : Atom → Prop) (e : Effect R) (certain : e.hasProbabilistic = false)
    (s : State R) (parts : e.Parts (·.Within (Vocabulary.settled R s.world)) added) (σs : List Substitution) :
    Changes.Agree everything (e.withoutRewards.simplify.gathered s σs) (e.gathered s σs) := by
  have rewardless : e.withoutRewards.hasProbabilistic = false :=
    within_deterministic _ id _ (unless_of_within _ rewardAtom _ (certain_within _ _ (within_anything e) certain))
  exact Changes.agree_trans
    (settled_simplify added e.withoutRewards rewardless s (parts_unless _ added rewardAtom e parts) σs)
    (Changes.agree_hiding _ (fun _ _ => trivial) (without_rewards_gathered e s σs))

end Matching

variable {R : Type} [Number R]

-- Nothing is left to chance, no fluent decides about a step or the goal, every condition of an effect has objects to
-- range over, and every predicate of a fact is declared.
structure Problem.IsPlain (p : Problem R) : Prop where
  distinct : (p.domain.actions.map Action.name).Nodup
  certain : ∀ a ∈ p.domain.actions, a.effect.hasProbabilistic = false
  preconditions : ∀ a ∈ p.domain.actions, a.precondition.Within (Vocabulary.fluentless R)
  conditions : ∀ a ∈ p.domain.actions, ∀ q body, Effect.when q body ∈ a.effect.nodes →
    q.Within (Vocabulary.fluentless R)
  populated : ∀ a ∈ p.domain.actions, ∀ q body, Effect.when q body ∈ a.effect.nodes →
    q.Within (Vocabulary.populated R p.world)
  additions : ∀ a ∈ p.domain.actions, ∀ fact, Effect.add fact ∈ a.effect.nodes → fact.name ∈ p.domain.predicateNames
  goal : p.goal.query.Within (Vocabulary.fluentless R)
  facts : ∀ fact ∈ p.init.facts, fact.name ∈ p.domain.predicateNames

def Problem.ComparesNumbers (p : Problem R) : Prop :=
  ∀ a ∈ p.domain.actions, ∀ q body, Effect.when q body ∈ a.effect.nodes → q.Within (Vocabulary.numericOperands R)

omit [Number R] in
theorem Problem.IsPlain.parts {p : Problem R} (plain : p.IsPlain) (numeric : p.ComparesNumbers) (a : Action R)
    (known : a ∈ p.domain.actions) :
    a.effect.Parts (·.Within (Vocabulary.settled R p.world)) fun fact => fact.name ∈ p.domain.predicateNames := by
  intro node inside
  cases node with
  | when q body =>
      exact q.within_settled R p.world (numeric a known q body inside) (plain.conditions a known q body inside)
        (plain.populated a known q body inside)
  | add fact => exact plain.additions a known fact inside
  | skip | delete | conj | forAll | assign | probabilistic => trivial

theorem Problem.IsPlain.goal_alike {p : Problem R} (plain : p.IsPlain) {x y : State R} (same : x.Matches y) :
    p.isGoal x = p.isGoal y := congrArg Value.asBool (same.holds _ plain.goal [])

def Domain.Declares (d : Domain R) (s : State R) : Prop := ∀ fact ∈ s.facts, fact.name ∈ d.predicateNames

omit [Number R] in
theorem Domain.declared_key (d : Domain R) (s : State R) (declared : d.Declares s) :
    (s.project d.predicateNames).key = s.facts :=
  List.filter_eq_self.mpr fun fact known => List.contains_iff_mem.mpr (declared fact known)

omit [Number R] in
theorem State.Matches.declared {d : Domain R} {x y : State R} (same : x.Matches y) (declared : d.Declares x) :
    d.Declares y := fun fact member => declared fact (same.facts ▸ member)

def Problem.Ensures (p : Problem R) (s : State R) (action : Ground) (x : State R) : Prop :=
  ∃ g os, p.outcomesIn s action = .ok (g, os) ∧
    ∀ draw, ∃ s', p.successor s action g (drawnEffect os draw) = .ok s' ∧ x.Matches s'

-- Wherever the facts are those of the first state, the actions lead through those of the others.
inductive Assures (p : Problem R) : State R → Plan → List (State R) → Prop
  | done (x : State R) : Assures p x [] []
  | step (x x' : State R) (action : Ground) (rest : Plan) (states : List (State R)) :
      (∀ s, x.Matches s → p.Ensures s action x') → Assures p x' rest states →
      Assures p x (action :: rest) (x' :: states)

section Copies

variable [Number.Certainty R] {t : Determinizer R} {p : Problem R} {d : Domain R} (serves : t.Serves p d)
  (literal : t.strategy.IsLiteral) (plain : p.IsPlain) (numeric : p.ComparesNumbers)

include plain

theorem Problem.only_drawn (s : State R) (action : Ground) (g : Action R) (os : List (R × Effect R))
    (listed : p.outcomesIn s action = .ok (g, os)) (i : Nat) (outcome : R × Effect R)
    (found : (Effect.numbered os)[i]? = some outcome) (draw : R) : drawnEffect os draw = outcome.2 := by
  obtain ⟨grounded, -, expanded⟩ := (outcomes_in_ok_iff p s action g os).mp listed
  obtain ⟨a, named, bound⟩ := (problem_ground_ok_iff p action g).mp grounded
  obtain ⟨-, rfl⟩ := (ground_ok_iff a action.args g).mp bound
  have certain := plain.certain a (action_found p.domain action.name a named).1
  obtain ⟨e, only⟩ := (a.bind (a.assignment action.args)).effect.expand_certain
    ((Effect.has_probabilistic_bind a.effect _).trans certain)
  cases expanded.symm.trans only
  rw [Effect.numbered, if_pos Number.Certainty.certain] at found
  rw [List.mem_singleton.mp (List.mem_of_getElem? found)]
  rfl

include serves

omit [Number.Certainty R] plain in
theorem Determinizer.Serves.copy_matches {s : State R} (regular : s.Regular p.world) :
    s.Matches (t.copy d p s).initialState :=
  ⟨(serves.copy_starts regular).facts.symm, (serves.copy_starts regular).world.symm⟩

include literal numeric

theorem Determinizer.Serves.copy_moves (s x x' : State R) (there : x.world = p.world) (step : Ground) (g : Action R)
    (goal : Option (Goal R)) (grounded : (t.copy d p s).ground step = .ok g)
    (applied : g.apply x goal = .ok (some x')) (o : OutcomeTrace R) (traced : t.trace step = .ok o) :
    x'.world = p.world ∧ (p.domain.Declares x → p.domain.Declares x') ∧
      ∀ y, x.Matches y → p.Ensures y o.base x' ∧ ∃ y', g.apply y none = .ok (some y') ∧ x'.Matches y' := by
  obtain ⟨a, known, b, became, i, outcome, found, certain, arity, made, again⟩ := serves.copy_variant s step g grounded
  cases traced.symm.trans again
  have variant := t.strategy.commit_deterministic b i outcome certain
  rw [t.strategy.literal_commits literal] at made variant
  subst made
  let σ := b.assignment step.args
  let v := b.variant i outcome.1 outcome.2.withoutRewards.simplify
  have precondition : v.precondition.Within (Vocabulary.fluentless R) := by
    have kept : v.precondition = a.precondition := (Action.preprocess_keeps a b became).2.2
    rw [kept]
    exact plain.preconditions a known
  have simplified (q : Query R) (settled : q.Within (Vocabulary.settled R p.world)) :
      q.simplify.Within (Vocabulary.settled R p.world) := Query.simplify_within _ Query.numeric_kept q settled
  have parts := Action.preprocess_becomes (Effect.parts_expand _ _ simplified) a b (plain.parts numeric a known) became outcome
    (List.mem_of_getElem? found)
  -- The variant does to the facts of any state what the outcome does that it commits to.
  have literally (z : State R) (there : z.world = p.world) :
      Changes.Agree Effect.everything (v.effect.gathered z [σ]) (outcome.2.gathered z [σ]) :=
    outcome.2.literal_gathered _ certain z (there ▸ parts) [σ]
  obtain ⟨holds, leads⟩ := instance_applied v σ variant x x' goal applied
  refine ⟨leads.world.trans there, fun declared fact member => ?_, fun y same => ?_⟩
  · rw [leads.facts, Changes.mem_revise, (literally x there).adds] at member
    rcases member with added | ⟨-, old⟩
    · obtain ⟨origin, known, name⟩ := Effect.gathered_additions _ _ outcome.2 parts x [σ] fact added
      rwa [name]
    · exact declared fact old
  · have world : y.world = p.world := same.world.symm.trans there
    have alike := Effect.matching_gathered same _ (fun _ => id) _ outcome.2 parts [σ]
    have asked : (v.precondition.bind σ).holds y = true := by
      have asked : (v.precondition.bind σ).holds x = true := holds
      rwa [Query.holds_bind, same.holds _ precondition, ← Query.holds_bind] at asked
    constructor
    · obtain ⟨g, os, y', listed, at_i, next, follows⟩ := base_step p plain.distinct a b known became i outcome found
        step.args arity y asked
      refine ⟨g, os, listed, fun draw => ⟨y', ?_, ?_⟩⟩
      · rw [p.only_drawn plain y _ g os listed i _ at_i draw]
        exact next
      · exact same.after _ _ leads follows (Changes.agree_trans (literally x there) alike)
    · obtain ⟨y', taken⟩ := instance_applies v σ variant y none asked
      obtain ⟨-, follows⟩ := instance_applied v σ variant y y' none taken
      refine ⟨y', taken, same.after _ _ leads follows ?_⟩
      exact Changes.agree_trans (Changes.agree_trans (literally x there) alike) (Changes.agree_symm (literally y world))

theorem Determinizer.Serves.copy_assures (s x : State R) (there : x.world = p.world) (declared : p.domain.Declares x)
    (plan : Plan) (states : List (State R)) (executed : Executes (t.copy d p s) x plan states) (base : Plan)
    (traced : t.Traces plan base) :
    Assures p x base states ∧ ∀ z ∈ x :: states, p.domain.Declares z := by
  induction executed generalizing base with
  | done x =>
      cases traced
      exact ⟨.done x, List.forall_mem_singleton.mpr declared⟩
  | step x x' step g goal rest states grounded applied _ ih =>
      cases traced with
      | cons first others =>
          obtain ⟨o, first, rfl⟩ := first
          obtain ⟨there', kept, moves⟩ :=
            serves.copy_moves literal plain numeric s x x' there step g goal grounded applied o first
          obtain ⟨assures, later⟩ := ih there' (kept declared) _ others
          exact ⟨.step x x' _ _ states (fun y same => (moves y same).1) assures, List.forall_mem_cons.mpr ⟨declared, later⟩⟩

end Copies

end Replan
