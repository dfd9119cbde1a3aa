import Replan.Proofs.Determinize.Wheel
import Replan.Proofs.Run

set_option autoImplicit false

namespace Replan.Hindsight

open Names Results

variable {R : Type}

-- Of the reserved facts a run touches the tokens alone. The token of an action stands at its position,
-- counted around the wheel.
structure Turned (method : WheelMethod) (names : List String) (size : Nat) (start : State R)
    (position : String → Nat) (s : State R) : Prop where
  fixed : ∀ f, reserved f.name = true → (∀ a ∈ names, f.name ≠ tokenName method a) →
    (f ∈ s.facts ↔ f ∈ start.facts)
  tokens : ∀ a ∈ names, ∀ f, f.name = tokenName method a →
    (f ∈ s.facts ↔ f = ⟨tokenName method a, [stepName (position a % size)]⟩)

theorem unreserved_changes (c : Changes R) (plain : c.Within (Vocabulary.unreserved R).certain) (f : Ground)
    (isReserved : reserved f.name = true) : f ∉ c.adds ∧ f ∉ c.deletes := by
  have impossible (a : Atom) (σs : List Substitution) (unreserved : reserved a.name = false)
      (bound : (a.bindAll σs).ground = f) : False := by
    rw [← bound] at isReserved
    have name : (a.bindAll σs).ground.name = a.name := Atom.bind_all_name σs a
    rw [name, unreserved] at isReserved
    cases isReserved
  constructor
  · intro member
    obtain ⟨a, σs, unreserved, bound⟩ := plain.adds f member
    exact impossible a σs unreserved.1 bound
  · intro member
    obtain ⟨a, σs, unreserved, bound⟩ := plain.deletes f member
    exact impossible a σs unreserved.1 bound

theorem turned_congr (method : WheelMethod) (names : List String) (size : Nat) (start s : State R)
    (position position' : String → Nat) (same : ∀ a ∈ names, position a = position' a)
    (turned : Turned method names size start position s) : Turned method names size start position' s :=
  ⟨turned.fixed, fun a member f named => by rw [turned.tokens a member f named, same a member]⟩

def executed (names : List String) (done : List (Action R)) : Nat :=
  done.countP fun g => g.origin.any fun o => names.contains o.base

def position (method : WheelMethod) (names : List String) (done : List (Action R)) (a : String) : Nat :=
  match method with
  | .shared => executed names done
  | .perAction => executed [a] done

theorem position_moves (method : WheelMethod) (names : List String) (done : List (Action R)) (g : Action R)
    (base a : String) (origin : ∃ i p arity, g.origin = some ⟨base, i, p, arity⟩) (member : a ∈ names)
    (wheeled : Bool) (listed : base ∈ names ↔ wheeled = true) :
    (if wheeled = true ∧ tokenName method a = tokenName method base then position method names done a + 1
      else position method names done a) = position method names (done ++ [g]) a := by
  obtain ⟨i, p, arity, origin⟩ := origin
  have counted (names : List String) :
      executed names (done ++ [g]) = executed names done + if base ∈ names then 1 else 0 := by
    rw [executed, executed, List.countP_append, List.countP_singleton, origin]
    simp [Option.any]
  cases method with
  | shared =>
      simp only [position, counted, tokenName, and_true, listed]
      split <;> rfl
  | perAction =>
      simp only [position, counted, List.mem_singleton]
      by_cases same : base = a
      · subst same
        rw [if_pos ⟨listed.mp member, rfl⟩, if_pos rfl]
      · rw [if_neg fun both => same (token_name_injective a base both.2).symm, if_neg same]
        rfl

variable [Number R]

theorem plain_step (b : Action R) (i : Nat) (p : R) (e : Effect R)
    (plain : e.Within (Vocabulary.unreserved R).certain) (σ : Substitution) (s s' : State R)
    (goal : Option (Goal R)) (applied : ((b.variant i p e).bind σ).apply s goal = .ok (some s')) (f : Ground)
    (isReserved : reserved f.name = true) : f ∈ s'.facts ↔ f ∈ s.facts := by
  have deterministic := Effect.within_deterministic _ id e plain
  obtain ⟨-, leads⟩ := instance_applied (b.variant i p e) σ deterministic s s' goal applied
  obtain ⟨notAdded, notDeleted⟩ :=
    unreserved_changes _ (Effect.gathered_within _ e plain s [σ]) f isReserved
  have changed := Changes.mem_revise (e.gathered s [σ]) s.facts f
  rw [leads.facts]
  simp only [notAdded, notDeleted, false_or, not_false_eq_true, true_and] at changed
  exact changed

theorem wheel_step (token choice : String) (tokenReserved : reserved token = true)
    (choiceReserved : reserved choice = true) (b : Action R) (i : Nat) (p : R) (e : Effect R)
    (plain : e.Within (Vocabulary.unreserved R).certain) (σ : Substitution) (s s' : State R)
    (goal : Option (Goal R))
    (applied : ((onWheel token choice (b.variant i p e)).bind σ).apply s goal = .ok (some s')) :
    ∃ t u, ⟨token, [t]⟩ ∈ s.facts ∧ ⟨nextName, [t, u]⟩ ∈ s.facts ∧ ⟨choice, [t]⟩ ∈ s.facts ∧
      ∀ f, reserved f.name = true →
        (f ∈ s'.facts ↔ f = ⟨token, [u]⟩ ∨ f ≠ ⟨token, [t]⟩ ∧ f ∈ s.facts) := by
  have deterministic := on_wheel_deterministic token choice (b.variant i p e)
    (Effect.within_deterministic _ id e plain)
  obtain ⟨applicable, leads⟩ := instance_applied _ σ deterministic s s' goal applied
  obtain ⟨-, atToken, inOrder, chosen⟩ := (on_wheel_applicable token choice _ σ s).mp applicable
  rw [State.holds_iff s ⟨token, _⟩ (reserved_is_not_equality token tokenReserved)] at atToken
  rw [State.holds_iff s ⟨nextName, _⟩ (reserved_is_not_equality nextName next_reserved)] at inOrder
  rw [State.holds_iff s ⟨choice, _⟩ (reserved_is_not_equality choice choiceReserved)] at chosen
  refine ⟨_, _, atToken, inOrder, chosen, fun f isReserved => ?_⟩
  have simplified := Effect.simplify_within _ (fun _ => id) e plain
  obtain ⟨notAdded, notDeleted⟩ :=
    unreserved_changes _ (Effect.gathered_within _ _ simplified s [σ]) f isReserved
  rw [leads.facts, on_wheel_gathered, Changes.mem_revise, Changes.append]
  simp only [Action.variant, List.mem_append, notAdded, notDeleted, false_or, List.mem_singleton]

theorem turned_step (method : WheelMethod) (names : List String) (size : Nat) (start : State R)
    (ordered : ∀ t u, ⟨nextName, [t, u]⟩ ∈ start.facts →
      ∃ k < size, t = stepName k ∧ u = stepName ((k + 1) % size))
    (position : String → Nat) (s s' : State R) (turned : Turned method names size start position s)
    (transformRewards : Bool) (b : Action R) (listed : isWheeled b = true → b.name ∈ names) (i : Nat)
    (outcome : R × Effect R) (plain : outcome.2.Within (Vocabulary.unreserved R).certain)
    (σ : Substitution) (goal : Option (Goal R))
    (applied : ((variantAt method transformRewards b i outcome).bind σ).apply s goal = .ok (some s')) :
    Turned method names size start
      (fun a => if isWheeled b = true ∧ tokenName method a = tokenName method b.name then position a + 1
        else position a) s' := by
  have settled : (settleRewards transformRewards outcome.2).Within (Vocabulary.unreserved R).certain :=
    settle_rewards_within _ (fun _ => by simp [Vocabulary.certain, Vocabulary.unreserved, totalCostAtom])
      (fun _ => id) transformRewards outcome.2 plain
  by_cases wheeled : isWheeled b = true
  · rw [variantAt, if_pos wheeled] at applied
    obtain ⟨t, u, atToken, inOrder, -, changed⟩ := wheel_step _ _ (token_reserved method b.name)
      (choice_reserved b.name i) b i outcome.1 _ settled σ s s' goal applied
    have isNext : (⟨nextName, [t, u]⟩ : Ground) ∈ start.facts :=
      (turned.fixed ⟨nextName, [t, u]⟩ next_reserved fun a _ => (token_is_not_next method a).symm).mp inOrder
    obtain ⟨k, bound, rfl, rfl⟩ := ordered t u isNext
    refine ⟨fun f isReserved notToken => ?_, fun a member f named => ?_⟩
    · have differs (step : String) : f ≠ ⟨tokenName method b.name, [step]⟩ := fun same =>
        notToken b.name (listed wheeled) (by rw [same])
      rw [changed f isReserved, ← turned.fixed f isReserved notToken]
      simp only [differs, false_or, ne_eq, not_false_eq_true, true_and]
    · have isReserved : reserved f.name = true := by rw [named, token_reserved]
      rw [changed f isReserved, turned.tokens a member f named]
      by_cases moved : tokenName method a = tokenName method b.name
      · -- The token stood at the step of the order that the variant was used with.
        have stood : (⟨tokenName method b.name, [stepName k]⟩ : Ground) =
            ⟨tokenName method a, [stepName (position a % size)]⟩ :=
          (turned.tokens a member _ moved.symm).mp atToken
        simp only [Ground.mk.injEq, List.cons.injEq, and_true] at stood
        have place : k = position a % size := step_name_injective _ _ stood.2
        rw [if_pos ⟨wheeled, moved⟩, ← moved, ← place, place, Nat.mod_add_mod]
        tauto
      · have differs (step : String) : f ≠ ⟨tokenName method b.name, [step]⟩ := fun same =>
          moved (named.symm.trans (by rw [same]))
        rw [if_neg fun both => moved both.2]
        simp only [differs, false_or, ne_eq, not_false_eq_true, true_and]
  · rw [variantAt, if_neg wheeled] at applied
    have kept := plain_step b i outcome.1 _ settled σ s s' goal applied
    refine ⟨fun f isReserved notToken => ?_, fun a member f named => ?_⟩
    · rw [kept f isReserved, turned.fixed f isReserved notToken]
    · have isReserved : reserved f.name = true := by rw [named, token_reserved]
      rw [kept f isReserved, turned.tokens a member f named, if_neg fun both => wheeled both.1]

def wheelNames (d : Domain R) : List String := (wheeled d).map Prod.fst

theorem wheeled_iff (b : Action R) (nonempty : b.outcomes ≠ []) :
    isWheeled b = true ↔ 1 < b.outcomes.length := by
  have positive := List.length_pos_iff.mpr nonempty
  rw [isWheeled, bne_iff_ne]
  omega

theorem mem_wheel_names (d : Domain R) (name : String) :
    name ∈ wheelNames d ↔ ∃ b ∈ d.actions, b.name = name ∧ 1 < b.outcomes.length := by
  simp only [wheelNames, wheeled, List.map_map, List.mem_map, List.mem_filter, decide_eq_true_eq,
    Function.comp_apply]
  constructor
  · intro listed
    obtain ⟨b, ⟨known, several⟩, same⟩ := listed
    exact ⟨b, known, same, several⟩
  · intro listed
    obtain ⟨b, known, same, several⟩ := listed
    exact ⟨b, ⟨known, several⟩, same⟩

theorem wheel_names_iff (d : Domain R) (distinct : (d.actions.map Action.name).Nodup) (b : Action R)
    (member : b ∈ d.actions) : b.name ∈ wheelNames d ↔ 1 < b.outcomes.length := by
  rw [mem_wheel_names]
  constructor
  · intro listed
    obtain ⟨c, known, same, several⟩ := listed
    rwa [← List.inj_on_of_nodup_map distinct known member same]
  · exact fun several => ⟨b, member, rfl, several⟩

theorem turned_run (method : WheelMethod) (transformRewards : Bool) (size : Nat) (d : Domain R) (p : Problem R)
    (distinct : (d.actions.map Action.name).Nodup) (nonempty : ∀ b ∈ d.actions, b.outcomes ≠ [])
    (plain : ∀ b ∈ d.actions, Effect.AllWithin (Vocabulary.unreserved R).certain b.outcomes)
    (actions : p.domain.actions = d.actions.flatMap (variants method transformRewards))
    (ordered : ∀ t u, ⟨nextName, [t, u]⟩ ∈ p.initialState.facts →
      ∃ k < size, t = stepName k ∧ u = stepName ((k + 1) % size))
    (atStart : Turned method (wheelNames d) size p.initialState (fun _ => 0) p.initialState)
    (done : List (Action R)) (s : State R) (reached : Reaches p done s) :
    Turned method (wheelNames d) size p.initialState (position method (wheelNames d) done) s := by
  induction reached with
  | start =>
      refine turned_congr method _ size _ _ _ _ (fun a _ => ?_) atStart
      cases method <;> rfl
  | step done g s s' goal _ known applied ih =>
      obtain ⟨w, inDomain, σ, rfl⟩ := instance_bound p g known
      rw [actions] at inDomain
      obtain ⟨b, member, inFamily⟩ := List.mem_flatMap.mp inDomain
      obtain ⟨i, at_i⟩ := List.mem_iff_getElem?.mp inFamily
      rw [variants_at] at at_i
      obtain ⟨outcome, found, rfl⟩ := Option.map_eq_some_iff.mp at_i
      have listed : b.name ∈ wheelNames d ↔ isWheeled b = true :=
        (wheel_names_iff d distinct b member).trans (wheeled_iff b (nonempty b member)).symm
      have moved := turned_step method _ size _ ordered _ s s' ih transformRewards b listed.mpr i outcome
        (plain b member outcome (List.mem_of_getElem? found)) σ goal applied
      refine turned_congr method _ size _ _ _ _ (fun a inWheel => ?_) moved
      exact position_moves method _ done (Action.bind σ _) b.name a
        ⟨i, outcome.1, b.parameters.length, (variant_at_name method transformRewards b i outcome).2⟩ inWheel _ listed

end Replan.Hindsight
