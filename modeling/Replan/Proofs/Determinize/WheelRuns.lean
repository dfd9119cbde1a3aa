import Replan.Proofs.Determinize.Turning

set_option autoImplicit false

namespace Replan.Hindsight

open Names Results

variable {R : Type} [Number R]

theorem hindsight_problem (t t' t'' : Determinizer R) (d : Domain R) (p p' : Problem R)
    (method : WheelMethod) (wheelSize : Nat) (transformRewards : Bool)
    (strategy : t.strategy = .hindsight method wheelSize transformRewards) (domainSet : t.setDomain d = .ok t')
    (completed : t'.determinize p = .ok (p', t'')) :
    ∃ d', d.preprocess = .ok d' ∧ t'.versions = .ok ⟨d, d', determinize method transformRewards d'⟩ ∧
      p' = (drawWheel method wheelSize d'
        (Determinizer.classicalProblem (determinize method transformRewards d') p) t.dice).1 := by
  obtain ⟨d', preprocessed, rfl⟩ := (set_domain_ok_iff t t' d).mp domainSet
  rw [strategy] at completed ⊢
  refine ⟨d', preprocessed, rfl, ?_⟩
  cases completed
  rfl

theorem draw_wheel_domain (method : WheelMethod) (wheelSize : Nat) (d : Domain R) (p : Problem R)
    (dice : Dice R) : (drawWheel method wheelSize d p dice).1.domain = p.domain := by
  unfold drawWheel
  simp only
  split <;> rfl

theorem draw_wheel_keeps (method : WheelMethod) (wheelSize : Nat) (d : Domain R) (p : Problem R)
    (dice : Dice R) : (drawWheel method wheelSize d p dice).1.goal = p.goal ∧
      (drawWheel method wheelSize d p dice).1.init.values = p.init.values ∧
      ∃ added, (drawWheel method wheelSize d p dice).1.objects = p.objects ++ added ∧
        ∀ o ∈ added, o.kind = some stepType := by
  unfold drawWheel
  simp only
  split
  · exact ⟨rfl, rfl, [], (List.append_nil _).symm, by simp⟩
  · refine ⟨rfl, rfl, _, rfl, fun o member => ?_⟩
    obtain ⟨step, -, rfl⟩ := List.mem_map.mp member
    rfl

def drawnChoices (wheelSize : Nat) (d : Domain R) (dice : Dice R) : List Ground :=
  (drawActions ((List.range (max wheelSize 1)).map stepName) dice (wheeled d)).1

theorem draw_wheel_start (method : WheelMethod) (wheelSize : Nat) (d : Domain R) (p : Problem R)
    (dice : Dice R) (f : Ground) :
    f ∈ (drawWheel method wheelSize d p dice).1.initialState.facts ↔
      f ∈ p.init.facts ∨ wheeled d ≠ [] ∧
        (f ∈ cycle (max wheelSize 1) ∨ f ∈ tokens method (wheelNames d) ∨ f ∈ drawnChoices wheelSize d dice) := by
  rw [Problem.initialState, State.of_facts_facts, Sorted.mem_of_list]
  by_cases unneeded : wheeled d = []
  · simp [drawWheel, unneeded]
  · have needed : (wheeled d).isEmpty = false := by simpa using unneeded
    simp only [drawWheel, needed, Bool.false_eq_true, if_false, Sorted.mem_insert_all, List.mem_append]
    rw [drawnChoices, wheelNames]
    tauto

theorem mem_cycle (size : Nat) (f : Ground) :
    f ∈ cycle size ↔ ∃ k < size, f = ⟨nextName, [stepName k, stepName ((k + 1) % size)]⟩ := by
  simp only [cycle, List.mem_map, List.mem_range]
  exact exists_congr fun k => and_congr_right fun _ => eq_comm

theorem mem_tokens (method : WheelMethod) (names : List String) (nonempty : names ≠ []) (f : Ground) :
    f ∈ tokens method names ↔ ∃ a ∈ names, f = ⟨tokenName method a, [stepName 0]⟩ := by
  cases method with
  | shared =>
      obtain ⟨a, member⟩ := List.exists_mem_of_ne_nil names nonempty
      simp only [tokens, List.mem_singleton, tokenName]
      constructor
      · intro same
        exact ⟨a, member, same⟩
      · intro named
        obtain ⟨_, _, same⟩ := named
        exact same
  | perAction =>
      simp only [tokens, List.mem_map]
      exact exists_congr fun a => and_congr_right fun _ => eq_comm

theorem drawn_is_choice (wheelSize : Nat) (d : Domain R) (dice : Dice R) (f : Ground)
    (drawn : f ∈ drawnChoices wheelSize d dice) : ∃ a i, f.name = choiceName a i := by
  obtain ⟨_, name, _, _, _, _, _, rfl⟩ := (mem_draw_actions _ dice _ f).mp drawn
  exact ⟨name, _, rfl⟩

theorem wheel_facts_reserved (method : WheelMethod) (wheelSize size : Nat) (names : List String) (d : Domain R)
    (dice : Dice R) (f : Ground)
    (onWheel : f ∈ cycle size ∨ f ∈ tokens method names ∨ f ∈ drawnChoices wheelSize d dice) :
    reserved f.name = true := by
  rcases onWheel with next | token | choice
  · obtain ⟨k, _, rfl⟩ := (mem_cycle size f).mp next
    exact next_reserved
  · cases method with
    | shared =>
        rw [List.mem_singleton.mp token]
        exact token_reserved .shared ""
    | perAction =>
        obtain ⟨a, _, rfl⟩ := List.mem_map.mp token
        exact token_reserved .perAction a
  · obtain ⟨a, i, named⟩ := drawn_is_choice wheelSize d dice f choice
    rw [named, choice_reserved]

theorem start_facts (method : WheelMethod) (wheelSize : Nat) (d : Domain R) (p : Problem R)
    (dice : Dice R) (plain : ∀ f ∈ p.init.facts, reserved f.name = false) (f : Ground)
    (isReserved : reserved f.name = true) :
    f ∈ (drawWheel method wheelSize d p dice).1.initialState.facts ↔ wheeled d ≠ [] ∧
      (f ∈ cycle (max wheelSize 1) ∨ f ∈ tokens method (wheelNames d) ∨ f ∈ drawnChoices wheelSize d dice) := by
  rw [draw_wheel_start]
  have foreign : f ∉ p.init.facts := fun member => by
    rw [plain f member] at isReserved
    cases isReserved
  simp only [foreign, false_or]

theorem start_next (method : WheelMethod) (wheelSize : Nat) (d : Domain R) (p : Problem R)
    (dice : Dice R) (plain : ∀ f ∈ p.init.facts, reserved f.name = false) (now next : String) :
    ⟨nextName, [now, next]⟩ ∈ (drawWheel method wheelSize d p dice).1.initialState.facts ↔
      wheeled d ≠ [] ∧ ∃ k < max wheelSize 1, now = stepName k ∧ next = stepName ((k + 1) % max wheelSize 1) := by
  rw [start_facts method wheelSize d p dice plain ⟨nextName, [now, next]⟩ next_reserved]
  refine and_congr_right fun needed => ?_
  have noToken : (⟨nextName, [now, next]⟩ : Ground) ∉ tokens method (wheelNames d) := by
    rw [mem_tokens method _ (by simpa [wheelNames] using needed)]
    intro token
    obtain ⟨a, _, same⟩ := token
    exact token_is_not_next method a (congrArg Ground.name same).symm
  have noChoice : (⟨nextName, [now, next]⟩ : Ground) ∉ drawnChoices wheelSize d dice := by
    intro drawn
    obtain ⟨a, i, same⟩ := drawn_is_choice wheelSize d dice _ drawn
    exact choice_is_not_next a i same.symm
  simp only [noToken, noChoice, or_false, mem_cycle, Ground.mk.injEq, List.cons.injEq, and_true, true_and]

theorem start_choice (method : WheelMethod) (wheelSize : Nat) (d : Domain R) (p : Problem R)
    (dice : Dice R) (plain : ∀ f ∈ p.init.facts, reserved f.name = false) (a : String) (i : Nat)
    (step : String) :
    ⟨choiceName a i, [step]⟩ ∈ (drawWheel method wheelSize d p dice).1.initialState.facts ↔
      ⟨choiceName a i, [step]⟩ ∈ drawnChoices wheelSize d dice := by
  rw [start_facts method wheelSize d p dice plain ⟨choiceName a i, [step]⟩ (choice_reserved a i)]
  have notNext : (⟨choiceName a i, [step]⟩ : Ground) ∉ cycle (max wheelSize 1) := by
    rw [mem_cycle]
    intro next
    obtain ⟨k, _, same⟩ := next
    exact choice_is_not_next a i (congrArg Ground.name same)
  have noToken (needed : wheeled d ≠ []) : (⟨choiceName a i, [step]⟩ : Ground) ∉ tokens method (wheelNames d) := by
    rw [mem_tokens method _ (by simpa [wheelNames] using needed)]
    intro token
    obtain ⟨b, _, same⟩ := token
    exact choice_is_not_token method a b i (congrArg Ground.name same)
  constructor
  · intro inStart
    obtain ⟨needed, next | token | drawn⟩ := inStart
    · exact absurd next notNext
    · exact absurd token (noToken needed)
    · exact drawn
  · intro drawn
    refine ⟨fun unneeded => ?_, Or.inr (Or.inr drawn)⟩
    rw [drawnChoices, unneeded] at drawn
    cases drawn

theorem start_turned (method : WheelMethod) (wheelSize : Nat) (d : Domain R) (p : Problem R)
    (dice : Dice R) (plain : ∀ f ∈ p.init.facts, reserved f.name = false) :
    Turned method (wheelNames d) (max wheelSize 1) (drawWheel method wheelSize d p dice).1.initialState
      (fun _ => 0) (drawWheel method wheelSize d p dice).1.initialState := by
  refine ⟨fun f _ _ => Iff.rfl, fun a member f named => ?_⟩
  have isReserved : reserved f.name = true := by rw [named, token_reserved]
  have nonempty : wheelNames d ≠ [] := List.ne_nil_of_mem member
  have needed : wheeled d ≠ [] := by simpa [wheelNames] using nonempty
  have notNext : f ∉ cycle (max wheelSize 1) := by
    rw [mem_cycle]
    intro next
    obtain ⟨k, _, rfl⟩ := next
    exact token_is_not_next method a named.symm
  have notChoice : f ∉ drawnChoices wheelSize d dice := by
    intro drawn
    obtain ⟨b, i, same⟩ := drawn_is_choice wheelSize d dice f drawn
    exact choice_is_not_token method b a i (same.symm.trans named)
  rw [start_facts method wheelSize d p dice plain f isReserved, mem_tokens method _ nonempty, Nat.zero_mod]
  simp only [notNext, notChoice, false_or, or_false, ne_eq, needed, not_false_eq_true, true_and]
  constructor
  · intro token
    obtain ⟨b, _, rfl⟩ := token
    have sameName : tokenName method b = tokenName method a := named
    rw [sameName]
  · rintro rfl
    exact ⟨a, member, rfl⟩

theorem wheel_assignment (b : Action R) (args : List String) (arity : args.length = b.parameters.length)
    (token choice now next : String) :
    readStep ((onWheel token choice b).assignment (args ++ [now, next])) currentVariable = now ∧
      readStep ((onWheel token choice b).assignment (args ++ [now, next])) followingVariable = next ∧
      ((onWheel token choice b).assignment (args ++ [now, next])).Agree (b.assignment args) := by
  have pairs : (onWheel token choice b).assignment (args ++ [now, next]) =
      Substitution.ofPairs ((((b.parameters.map Term.name).zip args) ++ [(currentVariable, now)]) ++
        [(followingVariable, next)]) := by
    have sameLength : (b.parameters.map Term.name).length = args.length := by rw [List.length_map, arity]
    rw [Action.assignment, onWheel, List.map_append, List.zip_append sameLength, List.append_assoc]
    rfl
  have differ : followingVariable ≠ currentVariable := by decide
  have bothReserved : reserved currentVariable = true ∧ reserved followingVariable = true := by
    simp [reserved, currentVariable, followingVariable, List.isPrefixOf]
  rw [pairs]
  refine ⟨?_, ?_, fun name plain => ?_⟩
  · rw [readStep, Substitution.lookup_of_pairs_append, if_neg differ, Substitution.lookup_of_pairs_append,
      if_pos rfl]
    rfl
  · rw [readStep, Substitution.lookup_of_pairs_append, if_pos rfl]
    rfl
  · have other (wheelVariable : String) (isReserved : reserved wheelVariable = true) : wheelVariable ≠ name := by
      rintro rfl
      rw [plain] at isReserved
      cases isReserved
    rw [Substitution.lookup_of_pairs_append, if_neg (other _ bothReserved.2),
      Substitution.lookup_of_pairs_append, if_neg (other _ bothReserved.1)]
    rfl

theorem wheel_variant_applicable (b : Action R) (plain : b.precondition.Within (Vocabulary.unreserved R))
    (args : List String) (arity : args.length = b.parameters.length) (token choice now next : String)
    (tokenReserved : reserved token = true) (choiceReserved : reserved choice = true) (s : State R) :
    ∃ g, (onWheel token choice b).ground (args ++ [now, next]) = .ok g ∧
      (g.isApplicable s = true ↔ (b.precondition.simplify.bind (b.assignment args)).holds s = true ∧
        ⟨token, [now]⟩ ∈ s.facts ∧ ⟨nextName, [now, next]⟩ ∈ s.facts ∧ ⟨choice, [now]⟩ ∈ s.facts) := by
  obtain ⟨readNow, readNext, agree⟩ := wheel_assignment b args arity token choice now next
  have wheelArity : (args ++ [now, next]).length = (onWheel token choice b).parameters.length := by
    rw [onWheel, List.length_append, List.length_append, arity]
    rfl
  have simplified := Query.simplify_within _ (fun _ => id) b.precondition plain
  refine ⟨_, (ground_ok_iff _ _ _).mpr ⟨wheelArity, rfl⟩, ?_⟩
  rw [on_wheel_applicable, readNow, readNext, Query.bind_agree agree _ simplified,
    State.holds_iff s ⟨token, _⟩ (reserved_is_not_equality token tokenReserved),
    State.holds_iff s ⟨nextName, _⟩ (reserved_is_not_equality nextName next_reserved),
    State.holds_iff s ⟨choice, _⟩ (reserved_is_not_equality choice choiceReserved)]

def Several (a : Action R) : Prop := ∃ os, a.effect.expand = .ok os ∧ 1 < os.length

theorem several_outcomes (a b : Action R) (became : a.preprocess = .ok b) (os : List (R × Effect R))
    (expanded : a.effect.expand = .ok os) (several : 1 < os.length) : b.outcomes = os := by
  obtain ⟨os', expanded', numbering, -⟩ := Action.preprocess_outcomes a b became
  cases expanded.symm.trans expanded'
  rw [numbering]
  rcases os with _ | ⟨first, _ | ⟨other, rest⟩⟩
  · cases several
  · exact absurd several (lt_irrefl 1)
  · rfl

theorem several_iff (a b : Action R) (became : a.preprocess = .ok b) : Several a ↔ 1 < b.outcomes.length := by
  obtain ⟨os, expanded, numbering, -⟩ := Action.preprocess_outcomes a b became
  constructor
  · intro found
    obtain ⟨os', expanded', several⟩ := found
    rwa [several_outcomes a b became os' expanded' several]
  · intro several
    refine ⟨os, expanded, ?_⟩
    rw [numbering] at several
    rcases os with _ | ⟨first, rest⟩
    · exact absurd several (lt_irrefl 1)
    · rwa [Effect.numbered_length] at several

omit [Number R] in
theorem token_only (method : WheelMethod) (names : List String) (size : Nat) (start s : State R)
    (position : String → Nat) (turned : Turned method names size start position s)
    (ordered : s.facts.Pairwise (· < ·)) (a : String) (member : a ∈ names) :
    s.facts.filter (fun f => f.name == tokenName method a) =
      [⟨tokenName method a, [stepName (position a % size)]⟩] := by
  refine Sorted.filter_single s.facts ordered.nodup _ _ (fun f known => ?_) ?_
  · rw [beq_iff_eq]
    exact ⟨fun named => (turned.tokens a member f named).mp known, fun same => by rw [same]⟩
  · exact (turned.tokens a member ⟨tokenName method a, _⟩ rfl).mpr rfl

theorem wheeled_at (d : Domain R) (b : Action R) (member : b ∈ d.actions) (several : 1 < b.outcomes.length) :
    ∃ j : Nat, (wheeled d)[j]? = some (b.name, b.outcomes.map Prod.fst) := by
  have listed : (b.name, b.outcomes.map Prod.fst) ∈ wheeled d :=
    List.mem_map.mpr ⟨b, List.mem_filter.mpr ⟨member, decide_eq_true several⟩, rfl⟩
  exact List.mem_iff_getElem?.mp listed

section Turned

variable (method : WheelMethod) (wheelSize : Nat) (transformRewards : Bool) (d : Domain R) (p : Problem R)
  (dice : Dice R) (distinct : (d.actions.map Action.name).Nodup)
  (start : ∀ f ∈ p.init.facts, reserved f.name = false) (place : String → Nat) (s : State R)
  (turned : Turned method (wheelNames d) (max wheelSize 1)
    (drawWheel method wheelSize d p dice).1.initialState place s)

include start turned

theorem wheelless_facts (noNames : wheelNames d = []) (f : Ground) (known : f ∈ s.facts) :
    reserved f.name = false := by
  by_contra isReserved
  rw [Bool.not_eq_false] at isReserved
  have fromStart := (turned.fixed f isReserved (by simp [noNames])).mp known
  have needed := ((start_facts method wheelSize d p dice start f isReserved).mp fromStart).1
  exact needed (by simpa [wheelNames] using noNames)

include distinct

theorem facts_at_turn (b : Action R) (member : b ∈ d.actions) (several : 1 < b.outcomes.length) (j : Nat)
    (at_j : (wheeled d)[j]? = some (b.name, b.outcomes.map Prod.fst)) (i : Nat) (now next : String) :
    (⟨tokenName method b.name, [now]⟩ ∈ s.facts ∧ ⟨nextName, [now, next]⟩ ∈ s.facts ∧
        ⟨choiceName b.name i, [now]⟩ ∈ s.facts) ↔
      now = stepName (place b.name % max wheelSize 1) ∧
        next = stepName ((place b.name % max wheelSize 1 + 1) % max wheelSize 1) ∧
        i = pickOutcome (b.outcomes.map Prod.fst)
          (dice.draws (dice.used + j * max wheelSize 1 + place b.name % max wheelSize 1)) := by
  have names : ((wheeled d).map Prod.fst).Nodup := by
    rw [wheeled, List.map_map]
    exact (List.filter_sublist.map Action.name).nodup distinct
  have listed : b.name ∈ wheelNames d := (wheel_names_iff d distinct b member).mpr several
  have needed : wheeled d ≠ [] := by
    have nonempty : wheelNames d ≠ [] := List.ne_nil_of_mem listed
    simpa [wheelNames] using nonempty
  have bound : place b.name % max wheelSize 1 < max wheelSize 1 :=
    Nat.mod_lt _ (Nat.lt_of_lt_of_le Nat.one_pos (le_max_right wheelSize 1))
  have token : (⟨tokenName method b.name, [now]⟩ : Ground) ∈ s.facts ↔
      now = stepName (place b.name % max wheelSize 1) := by
    rw [turned.tokens b.name listed ⟨tokenName method b.name, [now]⟩ rfl]
    simp only [Ground.mk.injEq, List.cons.injEq, and_true, true_and]
  have order : (⟨nextName, [now, next]⟩ : Ground) ∈ s.facts ↔
      ∃ k < max wheelSize 1, now = stepName k ∧ next = stepName ((k + 1) % max wheelSize 1) := by
    rw [turned.fixed ⟨nextName, [now, next]⟩ next_reserved fun a _ => (token_is_not_next method a).symm,
      start_next method wheelSize d p dice start]
    exact and_iff_right needed
  have choice : (⟨choiceName b.name i, [stepName (place b.name % max wheelSize 1)]⟩ : Ground) ∈ s.facts ↔
      i = pickOutcome (b.outcomes.map Prod.fst)
        (dice.draws (dice.used + j * max wheelSize 1 + place b.name % max wheelSize 1)) := by
    rw [turned.fixed ⟨choiceName b.name i, [_]⟩ (choice_reserved b.name i)
      fun a _ => choice_is_not_token method b.name a i, start_choice method wheelSize d p dice start]
    exact drawn_iff _ dice (wheeled d) names j b.name _ at_j _ bound i
  constructor
  · intro facts
    obtain ⟨atToken, inOrder, chosen⟩ := facts
    obtain rfl := token.mp atToken
    obtain ⟨k, _, sameStep, rfl⟩ := order.mp inOrder
    rw [← step_name_injective _ _ sameStep]
    exact ⟨rfl, rfl, choice.mp chosen⟩
  · rintro ⟨rfl, rfl, drawn⟩
    exact ⟨token.mpr rfl, order.mpr ⟨_, bound, rfl, rfl⟩, choice.mpr drawn⟩

theorem usable_variant (actions : p.domain.actions = d.actions.flatMap (variants method transformRewards))
    (b : Action R) (member : b ∈ d.actions) (several : 1 < b.outcomes.length)
    (plain : b.precondition.Within (Vocabulary.unreserved R)) (j : Nat)
    (at_j : (wheeled d)[j]? = some (b.name, b.outcomes.map Prod.fst)) (args : List String)
    (arity : args.length = b.parameters.length) (i : Nat) (now next : String) :
    (∃ g, (drawWheel method wheelSize d p dice).1.ground ⟨variantName b.name i, args ++ [now, next]⟩ = .ok g ∧
        g.isApplicable s = true) ↔
      i = pickOutcome (b.outcomes.map Prod.fst)
          (dice.draws (dice.used + j * max wheelSize 1 + place b.name % max wheelSize 1)) ∧
        now = stepName (place b.name % max wheelSize 1) ∧
        next = stepName ((place b.name % max wheelSize 1 + 1) % max wheelSize 1) ∧
        (b.precondition.simplify.bind (b.assignment args)).holds s = true := by
  have nonempty : b.outcomes ≠ [] := List.ne_nil_of_length_pos (Nat.lt_trans Nat.one_pos several)
  have wheel : isWheeled b = true := (wheeled_iff b nonempty).mpr several
  have turn := facts_at_turn method wheelSize d p dice distinct start place s turned b member several j at_j i now next
  have found : (drawWheel method wheelSize d p dice).1.domain.action? (variantName b.name i) =
      b.outcomes[i]?.map (variantAt method transformRewards b i) := by
    rw [Domain.action?, draw_wheel_domain, actions,
      find_variant _ (variants_numbered method transformRewards) d.actions distinct b member i, variants_at]
  have usable (outcome : R × Effect R) :
      ∃ g, (variantAt method transformRewards b i outcome).ground (args ++ [now, next]) = .ok g ∧
        (g.isApplicable s = true ↔ (b.precondition.simplify.bind (b.assignment args)).holds s = true ∧
          ⟨tokenName method b.name, [now]⟩ ∈ s.facts ∧ ⟨nextName, [now, next]⟩ ∈ s.facts ∧
          ⟨choiceName b.name i, [now]⟩ ∈ s.facts) := by
    rw [variantAt, if_pos wheel]
    exact wheel_variant_applicable (b.variant i outcome.1 (settleRewards transformRewards outcome.2)) plain args
      arity _ _ now next (token_reserved method b.name) (choice_reserved b.name i) s
  constructor
  · intro used
    obtain ⟨g, grounded, applicable⟩ := used
    obtain ⟨w, isVariant, instantiated⟩ := (problem_ground_ok_iff _ _ g).mp grounded
    rw [found] at isVariant
    obtain ⟨outcome, _, rfl⟩ := Option.map_eq_some_iff.mp isVariant
    obtain ⟨g', instantiated', asks⟩ := usable outcome
    cases instantiated.symm.trans instantiated'
    obtain ⟨holds, facts⟩ := asks.mp applicable
    obtain ⟨atNow, atNext, drawn⟩ := turn.mp facts
    exact ⟨drawn, atNow, atNext, holds⟩
  · intro turn
    obtain ⟨drawn, atNow, atNext, holds⟩ := turn
    have inRange : i < b.outcomes.length := by
      have inList := pick_in_range Number.zero
        (dice.draws (dice.used + j * max wheelSize 1 + place b.name % max wheelSize 1))
        (b.outcomes.map Prod.fst) (by simpa using nonempty)
      rw [drawn]
      simpa [pickOutcome] using inList
    obtain ⟨g, instantiated, asks⟩ := usable b.outcomes[i]
    refine ⟨g, (problem_ground_ok_iff _ _ g).mpr ⟨_, ?_, instantiated⟩, asks.mpr ⟨holds, ?_⟩⟩
    · rw [found, List.getElem?_eq_getElem inRange, Option.map_some]
    · exact turn.mpr ⟨atNow, atNext, drawn⟩

end Turned

/-- Along every run on a wheel the drawn choices stay as they are, and the steps taken so far have turned the one
token, or that of each action. At every turn the only variant of an action that can be used is the one that was drawn
for the step. -/
theorem wheel_invariant (t t' t'' : Determinizer R) (d : Domain R) (p p' : Problem R)
    (method : WheelMethod) (wheelSize : Nat) (transformRewards : Bool)
    (strategy : t.strategy = .hindsight method wheelSize transformRewards)
    (domainSet : t.setDomain d = .ok t') (completed : t'.determinize p = .ok (p', t''))
    (distinct : (d.actions.map Action.name).Nodup) (unreserved : d.Within (Vocabulary.unreserved R))
    (plainStart : ∀ f ∈ p.init.facts, reserved f.name = false) :
    ∃ versions, t'.versions = .ok versions ∧
      (∀ a ∈ d.actions, a.name ∈ wheelNames versions.preprocessed ↔ Several a) ∧
      ∀ done s, Reaches p' done s →
        (∀ f, f.name = nextName ∨ (∃ a i, f.name = choiceName a i) →
          (f ∈ s.facts ↔ f ∈ p'.initialState.facts)) ∧
        (method = .shared → (∃ a ∈ d.actions, Several a) →
          s.facts.filter (fun f => f.name == nowName) =
            [⟨nowName, [stepName (executed (wheelNames versions.preprocessed) done % max wheelSize 1)]⟩]) ∧
        (method = .perAction → ∀ a ∈ d.actions, Several a →
          s.facts.filter (fun f => f.name == tokenName .perAction a.name) =
            [⟨tokenName .perAction a.name, [stepName (executed [a.name] done % max wheelSize 1)]⟩]) ∧
        ((∀ a ∈ d.actions, ¬Several a) → ∀ f ∈ s.facts, reserved f.name = false) ∧
        ∀ a ∈ d.actions, ∀ os, a.effect.expand = .ok os → 1 < os.length →
          ∃ j : Nat, (wheeled versions.preprocessed)[j]? = some (a.name, os.map Prod.fst) ∧
            let here := position method (wheelNames versions.preprocessed) done a.name % max wheelSize 1
            let drawn := pickOutcome (os.map Prod.fst) (t.dice.draws (t.dice.used + j * max wheelSize 1 + here))
            ∀ args, args.length = a.parameters.length → ∀ i now next,
              (∃ g, p'.ground ⟨variantName a.name i, args ++ [now, next]⟩ = .ok g ∧ g.isApplicable s = true) ↔
                i = drawn ∧ now = stepName here ∧ next = stepName ((here + 1) % max wheelSize 1) ∧
                  (a.precondition.simplify.bind (a.assignment args)).holds s = true := by
  obtain ⟨d', preprocessed, current, rfl⟩ :=
    hindsight_problem t t' t'' d p p' method wheelSize transformRewards strategy domainSet completed
  obtain ⟨each, -⟩ := Domain.preprocess_actions d d' preprocessed
  have names : (d'.actions.map Action.name).Nodup := by rwa [Domain.preprocess_names _ _ each]
  generalize problem : Determinizer.classicalProblem (determinize method transformRewards d') p = q
  have start : ∀ f ∈ q.init.facts, reserved f.name = false := by
    rw [← problem]
    exact plainStart
  have actions : (drawWheel method wheelSize d' q t.dice).1.domain.actions =
      d'.actions.flatMap (variants method transformRewards) := by
    rw [draw_wheel_domain, ← problem]
    exact determinized_actions method transformRewards d'
  have nonempty := Domain.preprocess_nonempty _ _ each
  have plain := Domain.preprocess_within _ (fun _ => id) _ _ each unreserved
  have listed (a : Action R) (member : a ∈ d.actions) : a.name ∈ wheelNames d' ↔ Several a := by
    obtain ⟨b, known, became⟩ := forall_two_left _ _ _ each a member
    rw [several_iff a b became, ← (Action.preprocess_keeps a b became).1, wheel_names_iff d' names b known]
  refine ⟨_, current, listed, fun done s reached => ?_⟩
  have turned := turned_run method transformRewards (max wheelSize 1) d' _ names nonempty
    (fun b member => (plain b member).2) actions
    (fun now next inOrder => ((start_next method wheelSize d' q t.dice start now next).mp inOrder).2)
    (start_turned method wheelSize d' q t.dice start) done s reached
  have ordered := reached_ordered _ done s reached
  refine ⟨?_, ?_, ?_, ?_, ?_⟩
  · rintro f (named | ⟨a, i, named⟩)
    · exact turned.fixed f (by rw [named, next_reserved]) fun a _ => by
        rw [named]
        exact (token_is_not_next method a).symm
    · exact turned.fixed f (by rw [named, choice_reserved]) fun b _ => by
        rw [named]
        exact choice_is_not_token method a b i
  · rintro rfl ⟨a, member, several⟩
    exact token_only _ _ _ _ s _ turned ordered a.name ((listed a member).mpr several)
  · rintro rfl a member several
    exact token_only _ _ _ _ s _ turned ordered a.name ((listed a member).mpr several)
  · intro single f known
    refine wheelless_facts method wheelSize d' q t.dice start _ s turned ?_ f known
    refine List.eq_nil_iff_forall_not_mem.mpr fun name inWheel => ?_
    obtain ⟨b, member, rfl, several⟩ := (mem_wheel_names d' name).mp inWheel
    obtain ⟨a, given, became⟩ := forall_two_right _ _ _ each b member
    exact single a given ((several_iff a b became).mpr several)
  · intro a member os expanded several
    obtain ⟨b, known, became⟩ := forall_two_left _ _ _ each a member
    have outcomes := several_outcomes a b became os expanded several
    rw [← outcomes] at several ⊢
    obtain ⟨j, at_j⟩ := wheeled_at d' b known several
    obtain ⟨sameName, sameParameters, samePrecondition⟩ := Action.preprocess_keeps a b became
    refine ⟨j, by rw [← sameName]; exact at_j, fun args arity i now next => ?_⟩
    have ofDomain : q.domain.actions = d'.actions.flatMap (variants method transformRewards) := by
      rw [← draw_wheel_domain method wheelSize d' q t.dice]
      exact actions
    have usable := usable_variant method wheelSize transformRewards d' q t.dice names start _ s turned ofDomain b
      known several (plain b known).1 j at_j args
      (by rw [sameParameters, arity]) i now next
    rw [samePrecondition, Action.preprocess_assignment a b became, sameName] at usable
    exact usable

theorem coins_unreserved : coins.Within (Vocabulary.unreserved ℚ) := by
  simp [Domain.Within, coins, toss, polish, coin, Action.Within, Query.Within, Query.WithinList, Effect.Within,
    Effect.WithinList, Effect.WithinOutcomes, Vocabulary.unreserved, rewardAtom, reserved, List.isPrefixOf]

theorem wheel_invariant_toss :
    ∃ t' p' t'' g s', (Determinizer.ofDice (.hindsight .perAction 2 false) (Dice.always (0 : ℚ))).setDomain
        coins = .ok t' ∧ t'.determinize twoCoins = .ok (p', t'') ∧
      p'.ground ⟨"toss_o0", ["cent", "hs-0", "hs-1"]⟩ = .ok g ∧ g.apply p'.initialState none = .ok (some s') ∧
      s'.facts.filter (fun f => f.name == tokenName .perAction "toss") =
        [⟨tokenName .perAction "toss", [stepName 1]⟩] := by
  have tossed : (do
      let t' ← (Determinizer.ofDice (.hindsight .perAction 2 false) (Dice.always (0 : ℚ))).setDomain coins
      let completed ← t'.determinize twoCoins
      let g ← completed.1.ground ⟨"toss_o0", ["cent", "hs-0", "hs-1"]⟩
      let next ← g.apply completed.1.initialState none
      pure (next.isSome, executed ["toss"] [g])).toOption = some (true, 1) := by decide +kernel
  rw [to_option_iff] at tossed
  simp only [bind_ok_iff, pure_ok_iff, Prod.mk.injEq] at tossed
  obtain ⟨t', domainSet, ⟨p', t''⟩, completed, g, grounded, next, applied, isSome, once⟩ := tossed
  obtain ⟨s', rfl⟩ := Option.isSome_iff_exists.mp isSome
  obtain ⟨versions, -, -, runs⟩ := wheel_invariant _ t' t'' coins twoCoins p' .perAction 2 false rfl domainSet
    completed (by decide) coins_unreserved (by simp [twoCoins, reserved, List.isPrefixOf])
  have several : Several toss := by
    have expanded : (toss.effect.expand.map List.length).toOption = some 3 := by decide +kernel
    obtain ⟨os, outcomes, count⟩ := (map_ok_iff _ _ _).mp ((to_option_iff _ _).mp expanded)
    exact ⟨os, outcomes, by omega⟩
  obtain ⟨-, -, tokens, -⟩ := runs [g] s' (.step [] g _ s' none .start (Or.inr ⟨_, grounded⟩) applied)
  have token := tokens rfl toss (by simp [coins]) several
  rw [show toss.name = "toss" from rfl, once] at token
  exact ⟨t', p', t'', g, s', domainSet, completed, grounded, applied, token⟩

def polishing : Domain ℚ := { coins with actions := [polish] }

theorem certain_domains_get_no_wheel :
    (polishing.actions.map Action.name).Nodup ∧ polishing.Within (Vocabulary.unreserved ℚ) ∧
      ∃ t' p' t'', (Determinizer.ofDice (.hindsight .shared 3 false) (Dice.always (0 : ℚ))).setDomain
          polishing = .ok t' ∧
        t'.determinize (twoCoins.withDomain polishing) = .ok (p', t'') ∧ Reaches p' [] p'.initialState ∧
        ¬∃ f ∈ p'.initialState.facts, f.name = nowName := by
  refine ⟨by decide, fun a member => coins_unreserved a ?_, ?_⟩
  · rw [polishing, List.mem_singleton] at member
    simp [member, coins]
  · have wheelless : (do
        let t' ← (Determinizer.ofDice (.hindsight .shared 3 false) (Dice.always (0 : ℚ))).setDomain polishing
        let completed ← t'.determinize (twoCoins.withDomain polishing)
        pure (completed.1.initialState.facts.any fun f => f.name == nowName)).toOption = some false := by
      decide +kernel
    rw [to_option_iff] at wheelless
    simp only [bind_ok_iff, pure_ok_iff, List.any_eq_false, beq_iff_eq] at wheelless
    obtain ⟨t', domainSet, ⟨p', t''⟩, completed, noToken⟩ := wheelless
    refine ⟨t', p', t'', domainSet, completed, .start, ?_⟩
    intro found
    obtain ⟨f, known, named⟩ := found
    exact noToken f known named

end Replan.Hindsight
