import Replan.Proofs.Agent.Acts
import Replan.Proofs.Agent.Policy
import Replan.Proofs.Number.Exact
import Replan.Proofs.Results

set_option autoImplicit false

namespace Replan

open Results Act

namespace PlanNotes

def record (notes : PlanNotes) (visit : List Ground × Ground) : PlanNotes := notes.add visit.1 visit.2

def takenIn (key : List Ground) (visits : List (List Ground × Ground)) : List Ground :=
  (visits.filter fun visit => visit.1 = key).map Prod.snd

theorem mem_taken_in (key : List Ground) (visits : List (List Ground × Ground)) (action : Ground) :
    action ∈ takenIn key visits ↔ (key, action) ∈ visits := by
  simp [takenIn]

def amendBy (noted : Option (Option Ground)) (actions : List Ground) : Option (Option Ground) :=
  actions.foldl (fun noted action => some (amend noted action)) noted

theorem recorded_lookup (visits : List (List Ground × Ground)) (notes : PlanNotes) (key : List Ground) :
    (visits.foldl record notes).lookup key = amendBy (notes.lookup key) (takenIn key visits) := by
  induction visits generalizing notes with
  | nil => rfl
  | cons visit rest ih =>
      rw [List.foldl_cons, ih, record]
      by_cases here : visit.1 = key
      · have first : takenIn key (visit :: rest) = visit.2 :: takenIn key rest := by simp [takenIn, here]
        rw [first, here, lookup_add, amendBy, amendBy, List.foldl_cons]
      · have skipped : takenIn key (visit :: rest) = takenIn key rest := by simp [takenIn, here]
        rw [skipped, lookup_add_other notes key visit.1 visit.2 here]

theorem recorded_distinct (visits : List (List Ground × Ground)) (notes : PlanNotes)
    (distinct : (notes.map Prod.fst).Nodup) : ((visits.foldl record notes).map Prod.fst).Nodup := by
  induction visits generalizing notes with
  | nil => exact distinct
  | cons visit rest ih => exact ih _ (add_distinct notes visit.1 visit.2 distinct)

theorem agreed_stays (action : Ground) (actions : List Ground) (agree : ∀ other ∈ actions, other = action) :
    amendBy (some (some action)) actions = some (some action) := by
  induction actions with
  | nil => rfl
  | cons other rest ih =>
      obtain ⟨rfl, later⟩ := List.forall_mem_cons.mp agree
      rw [amendBy, List.foldl_cons, amend, if_pos rfl]
      exact ih later

theorem disputed_stays (actions : List Ground) : amendBy (some none) actions = some none := by
  induction actions with
  | nil => rfl
  | cons other rest ih => exact ih

theorem disputed_ends (action other : Ground) (differs : other ≠ action) (actions : List Ground)
    (taken : other ∈ actions) : amendBy (some (some action)) actions = some none := by
  induction actions with
  | nil => cases taken
  | cons first rest ih =>
      rw [amendBy, List.foldl_cons, amend]
      by_cases same : first = action
      · subst same
        rw [if_pos rfl]
        exact ih ((List.mem_cons.mp taken).resolve_left differs)
      · rw [if_neg fun same' => same (Option.some.inj same').symm]
        exact disputed_stays rest

theorem amend_agreed (action : Ground) (actions : List Ground) (taken : action ∈ actions)
    (agree : ∀ other ∈ actions, other = action) : amendBy none actions = some (some action) := by
  cases actions with
  | nil => cases taken
  | cons first rest =>
      obtain ⟨rfl, later⟩ := List.forall_mem_cons.mp agree
      exact agreed_stays first rest later

theorem amend_disputed (action other : Ground) (differs : action ≠ other) (actions : List Ground)
    (taken : action ∈ actions) (also : other ∈ actions) : amendBy none actions = some none := by
  cases actions with
  | nil => cases taken
  | cons first rest =>
      show amendBy (some (some first)) rest = some none
      by_cases here : action = first
      · subst here
        exact disputed_ends action other differs.symm rest ((List.mem_cons.mp also).resolve_left differs.symm)
      · exact disputed_ends first action here rest ((List.mem_cons.mp taken).resolve_left here)

end PlanNotes

namespace SimpleAgent

variable {R : Type} [Number R] {σ : Type}

section Trail

variable (t : Determinizer R) (p : Problem R) (vocabulary : List String)

-- A plan is replayed up to and including its first inapplicable step. What every step met are the facts of the
-- vocabulary and the base action that it was traced to.
inductive Replays : State R → Plan → List (List Ground × Ground) → Prop
  | done (s : State R) : Replays s [] []
  | stops (s : State R) (step : Ground) (rest : Plan) (o : OutcomeTrace R) (a : Action R) (traced : t.trace step = .ok o)
      (grounded : p.ground step = .ok a) (inapplicable : a.apply s none = .ok none) :
      Replays s (step :: rest) [((s.project vocabulary).key, o.base)]
  | goes (s s' : State R) (step : Ground) (rest : Plan) (o : OutcomeTrace R) (a : Action R)
      (visits : List (List Ground × Ground)) (traced : t.trace step = .ok o) (grounded : p.ground step = .ok a)
      (applied : a.apply s none = .ok (some s')) :
      Replays s' rest visits → Replays s (step :: rest) (((s.project vocabulary).key, o.base) :: visits)

inductive Breaks : State R → Plan → Error R → Prop
  | untraced (s : State R) (step : Ground) (rest : Plan) (e : Error R) (untraced : t.trace step = .error e) :
      Breaks s (step :: rest) e
  | ungrounded (s : State R) (step : Ground) (rest : Plan) (o : OutcomeTrace R) (e : Error R)
      (traced : t.trace step = .ok o) (ungrounded : p.ground step = .error e) : Breaks s (step :: rest) e
  | refused (s : State R) (step : Ground) (rest : Plan) (o : OutcomeTrace R) (a : Action R) (e : Error R)
      (traced : t.trace step = .ok o) (grounded : p.ground step = .ok a) (refused : a.apply s none = .error e) :
      Breaks s (step :: rest) e
  | later (s s' : State R) (step : Ground) (rest : Plan) (o : OutcomeTrace R) (a : Action R) (e : Error R)
      (traced : t.trace step = .ok o) (grounded : p.ground step = .ok a) (applied : a.apply s none = .ok (some s')) :
      Breaks s' rest e → Breaks s (step :: rest) e

def trail (s : State R) : Plan → Except (Error R) (List (List Ground × Ground))
  | [] => pure []
  | step :: rest => do
      let o ← t.trace step
      let a ← p.ground step
      match ← a.apply s none with
      | none => pure [((s.project vocabulary).key, o.base)]
      | some s' => (trail s' rest).map (((s.project vocabulary).key, o.base) :: ·)

theorem trail_decides (s : State R) (plan : Plan) :
    match trail t p vocabulary s plan with
    | .ok visits => Replays t p vocabulary s plan visits
    | .error e => Breaks t p s plan e := by
  induction plan generalizing s with
  | nil => exact .done s
  | cons step rest ih =>
      rw [trail]
      cases traced : t.trace step with
      | error e => exact .untraced s step rest e traced
      | ok o =>
          rw [ok_bind]
          cases grounded : p.ground step with
          | error e => exact .ungrounded s step rest o e traced grounded
          | ok a =>
              rw [ok_bind]
              cases applied : a.apply s none with
              | error e => exact .refused s step rest o a e traced grounded applied
              | ok next =>
                  cases next with
                  | none => exact .stops s step rest o a traced grounded applied
                  | some s' =>
                      have onward := ih s'
                      show match (trail t p vocabulary s' rest).map (((s.project vocabulary).key, o.base) :: ·) with
                        | .ok visits => Replays t p vocabulary s (step :: rest) visits
                        | .error e => Breaks t p s (step :: rest) e
                      cases later : trail t p vocabulary s' rest with
                      | ok visits =>
                          rw [later] at onward
                          exact .goes s s' step rest o a visits traced grounded applied onward
                      | error e =>
                          rw [later] at onward
                          exact .later s s' step rest o a e traced grounded applied onward

variable {t p vocabulary}

theorem trail_replays (s : State R) (plan : Plan) (visits : List (List Ground × Ground))
    (known : trail t p vocabulary s plan = .ok visits) : Replays t p vocabulary s plan visits := by
  have decided := trail_decides t p vocabulary s plan
  rwa [known] at decided

theorem replays_or_breaks (vocabulary : List String) (s : State R) (plan : Plan) :
    (∃ visits, Replays t p vocabulary s plan visits) ∨ ∃ e, Breaks t p s plan e := by
  have decided := trail_decides t p vocabulary s plan
  cases known : trail t p vocabulary s plan with
  | ok visits =>
      rw [known] at decided
      exact .inl ⟨visits, decided⟩
  | error e =>
      rw [known] at decided
      exact .inr ⟨e, decided⟩

theorem replay_records (s : State R) (plan : Plan) (visits : List (List Ground × Ground))
    (replays : Replays t p vocabulary s plan visits) (notes : PlanNotes) :
    replay t p vocabulary notes s plan = .ok (visits.foldl PlanNotes.record notes) := by
  induction replays generalizing notes with
  | done s => rfl
  | stops s step rest o a traced grounded inapplicable =>
      rw [replay, traced, ok_bind, grounded, ok_bind, inapplicable]
      rfl
  | goes s s' step rest o a visits traced grounded applied _ ih =>
      rw [replay, traced, ok_bind, grounded, ok_bind, applied]
      exact ih _

theorem replay_breaks (s : State R) (plan : Plan) (e : Error R) (breaks : Breaks t p s plan e) (notes : PlanNotes) :
    replay t p vocabulary notes s plan = .error e := by
  induction breaks generalizing notes with
  | untraced s step rest e untraced =>
      rw [replay, untraced]
      rfl
  | ungrounded s step rest o e traced ungrounded =>
      rw [replay, traced, ok_bind, ungrounded]
      rfl
  | refused s step rest o a e traced grounded refused =>
      rw [replay, traced, ok_bind, grounded, ok_bind, refused]
      rfl
  | later s s' step rest o a e traced grounded applied _ ih =>
      rw [replay, traced, ok_bind, grounded, ok_bind, applied]
      exact ih _

theorem first_action_replayed (s : State R) (plan : Plan) (visits : List (List Ground × Ground))
    (replays : Replays t p vocabulary s plan visits) :
    ∃ first, firstAction t plan = .ok first ∧ (plan = [] → first = none) ∧
      ∀ step rest o, plan = step :: rest → t.trace step = .ok o → first = some o.base := by
  have begins (step : Ground) (rest : Plan) (o : OutcomeTrace R) (traced : t.trace step = .ok o) :
      ∃ first, firstAction t (step :: rest) = .ok first ∧ (step :: rest = [] → first = none) ∧
        ∀ step' rest' o', step :: rest = step' :: rest' → t.trace step' = .ok o' → first = some o'.base := by
    refine ⟨some o.base, by rw [firstAction, traced]; rfl, nofun, ?_⟩
    rintro step' rest' o' ⟨⟩ traced'
    cases traced.symm.trans traced'
    rfl
  cases replays with
  | done => exact ⟨none, rfl, fun _ => rfl, nofun⟩
  | stops _ step rest o a traced => exact begins step rest o traced
  | goes _ s' step rest o a visits traced => exact begins step rest o traced

end Trail

def learn (policy : Policy) (visits : List (List Ground × Ground)) : Policy :=
  PlanNotes.enter (visits.foldl PlanNotes.record []) policy

theorem learn_lookup (policy : Policy) (visits : List (List Ground × Ground)) (key : List Ground) :
    (learn policy visits).lookup? key =
      (PlanNotes.amendBy none (PlanNotes.takenIn key visits)).getD (policy.lookup? key) := by
  rw [learn, PlanNotes.enter_lookup _ (PlanNotes.recorded_distinct visits [] List.nodup_nil), PlanNotes.recorded_lookup,
    List.lookup_nil]

theorem learn_agreed (policy : Policy) (visits : List (List Ground × Ground)) (key : List Ground) (base : Ground)
    (taken : (key, base) ∈ visits) (agree : ∀ other, (key, other) ∈ visits → other = base) :
    (learn policy visits).lookup? key = some base := by
  have agreed := PlanNotes.amend_agreed base (PlanNotes.takenIn key visits)
    ((PlanNotes.mem_taken_in key visits base).mpr taken)
    fun other member => agree other ((PlanNotes.mem_taken_in key visits other).mp member)
  rw [learn_lookup, agreed, Option.getD_some]

theorem learn_disputed (policy : Policy) (visits : List (List Ground × Ground)) (key : List Ground) (base other : Ground)
    (taken : (key, base) ∈ visits) (also : (key, other) ∈ visits) (differs : base ≠ other) :
    (learn policy visits).lookup? key = none := by
  have disputed := PlanNotes.amend_disputed base other differs (PlanNotes.takenIn key visits)
    ((PlanNotes.mem_taken_in key visits base).mpr taken) ((PlanNotes.mem_taken_in key visits other).mpr also)
  rw [learn_lookup, disputed, Option.getD_some]

theorem learn_other (policy : Policy) (visits : List (List Ground × Ground)) (key : List Ground)
    (absent : ∀ base, (key, base) ∉ visits) : (learn policy visits).lookup? key = policy.lookup? key := by
  have none : PlanNotes.takenIn key visits = [] :=
    List.eq_nil_iff_forall_not_mem.mpr fun base member => absent base ((PlanNotes.mem_taken_in key visits base).mp member)
  rw [learn_lookup, none]
  rfl

/-- What is learnt from a plan is the action that it takes in some facts. Facts in which it takes several are
forgotten, all others are left alone, and if the replay breaks off the policy stays as it is. -/
theorem policy_update_is_exact (planner : Planner R σ) (memory : SimpleAgent R σ) (s : State R) (remaining : Option Nat)
    (q : Problem R) (t : Determinizer R)
    (determinized : memory.determinizer.determinize (memory.problem.anchoredAt s) = .ok (q, t)) (plan : Plan)
    (found : (planner.solve memory.planner q remaining).1.plan = some plan) :
    let asked := { memory with
      determinizer := t, planner := (planner.solve memory.planner q remaining).2, invocations := memory.invocations + 1 }
    ((∃ visits, Replays t q memory.vocabulary q.initialState plan visits) ∨ ∃ e, Breaks t q q.initialState plan e) ∧
    (∀ visits, Replays t q memory.vocabulary q.initialState plan visits →
      ∃ first policy, replan planner s remaining memory = (.ok first, { asked with policy }) ∧
        (plan = [] → first = none) ∧
        (∀ step rest o, plan = step :: rest → t.trace step = .ok o → first = some o.base) ∧
        ∀ key,
          (∀ base, (key, base) ∈ visits → (∀ other, (key, other) ∈ visits → other = base) →
            policy.lookup? key = some base) ∧
          (∀ base other, (key, base) ∈ visits → (key, other) ∈ visits → base ≠ other → policy.lookup? key = none) ∧
          ((∀ base, (key, base) ∉ visits) → policy.lookup? key = memory.policy.lookup? key)) ∧
    ∀ e, Breaks t q q.initialState plan e → replan planner s remaining memory = (.error e, asked) := by
  intro asked
  refine ⟨replays_or_breaks _ _ plan, fun visits replays => ?_, fun e breaks => ?_⟩
  · have replayed := replay_records q.initialState plan visits replays []
    obtain ⟨first, begun, nothing, something⟩ := first_action_replayed q.initialState plan visits replays
    have ends : Ends (replan planner s remaining) memory
        (fun choice left => choice = first ∧ left = { asked with policy := learn memory.policy visits })
        fun _ _ => False := by
      rw [replan]
      simp only [ends_bind, ends_get, determinized, ends_ok, ends_set, found, replayed, begun, ends_modify, ends_pure]
      exact ⟨trivial, rfl⟩
    obtain ⟨_, _, acted, rfl, rfl⟩ := (ends_ok_iff _ _ _).mp ends
    exact ⟨_, learn memory.policy visits, acted, nothing, something, fun key =>
      ⟨learn_agreed memory.policy visits key, learn_disputed memory.policy visits key,
        learn_other memory.policy visits key⟩⟩
  · have replayed : replay t q memory.vocabulary [] q.initialState plan = .error e := replay_breaks _ plan e breaks []
    have ends : Ends (replan planner s remaining) memory (fun _ _ => False) fun e' left => e' = e ∧ left = asked := by
      rw [replan]
      simp only [ends_bind, ends_get, determinized, ends_ok, ends_set, found, replayed, ends_error]
      exact ⟨trivial, rfl⟩
    obtain ⟨_, _, acted, rfl, rfl⟩ := (ends_error_iff _ _ _).mp ends
    exact acted

def oven : Problem ℚ where
  name := "oven"
  domain := {
    name := "ovens"
    requirements := [.numericFluents, .conditionalEffects]
    types := Hierarchy.empty
    constants := []
    predicates := [⟨"ready", []⟩]
    functions := [⟨"heat", []⟩]
    actions := [
      ⟨"warm", [], .always, .conj [.assign .increase ⟨"heat", []⟩ (.constant 1),
        .when (.comparison .atLeast (.fluent ⟨"heat", []⟩) (.constant 1)) (.add ⟨"ready", []⟩)], none⟩,
      ⟨"vent", [], .comparison .atLeast (.fluent ⟨"heat", []⟩) (.constant 1),
        .assign .decrease ⟨"heat", []⟩ (.constant 1), none⟩,
      ⟨"rest", [], .always, .assign .decrease ⟨"heat", []⟩ (.constant 1), none⟩] }
  objects := []
  init := ⟨[], [(⟨"heat", []⟩, 0)]⟩
  goal := ⟨.falsity, none, none⟩

def ovenPlan : Plan :=
  ["warm_o0", "warm_o0", "vent_o0", "rest_o0", "vent_o0", "warm_o0"].map fun name => ⟨name, []⟩

theorem policy_update_is_exact_oven :
    let light : Ground := ⟨"light", []⟩
    let warm : Ground := ⟨"warm", []⟩
    let ready : Ground := ⟨"ready", []⟩
    ∃ memory q t visits learnt,
      ofProblem oven (Determinizer.ofDice .allOutcome (Dice.always (0 : ℚ))) [⟨some ovenPlan, false, 0⟩] = .ok memory ∧
      memory.determinizer.determinize (memory.problem.anchoredAt oven.initialState) = .ok (q, t) ∧
      Replays t q memory.vocabulary q.initialState ovenPlan visits ∧
      visits = [([], warm), ([], warm), ([ready], ⟨"vent", []⟩), ([ready], ⟨"rest", []⟩), ([ready], ⟨"vent", []⟩)] ∧
      replan (Planner.scripted fun _ => none) oven.initialState none
        { memory with policy := [([ready], light), ([light], light)] } = (.ok (some warm), learnt) ∧
      learnt.policy.lookup? [] = some warm ∧ learnt.policy.lookup? [ready] = none ∧
      learnt.policy.lookup? [light] = some light := by
  intro light warm ready
  have executes : (do
      let memory ← ofProblem oven (Determinizer.ofDice .allOutcome (Dice.always (0 : ℚ)))
        [(⟨some ovenPlan, false, 0⟩ : PlanReport)]
      let copied ← memory.determinizer.determinize (memory.problem.anchoredAt oven.initialState)
      let visits ← trail copied.2 copied.1 memory.vocabulary copied.1.initialState ovenPlan
      let o ← copied.2.trace ⟨"warm_o0", []⟩
      pure (memory.planner, visits, o.base)).toOption =
        some ([⟨some ovenPlan, false, 0⟩],
          [([], warm), ([], warm), ([ready], ⟨"vent", []⟩), ([ready], ⟨"rest", []⟩), ([ready], ⟨"vent", []⟩)], warm) := by
    decide +kernel
  rw [to_option_iff] at executes
  simp only [bind_ok_iff, pure_ok_iff, Prod.mk.injEq] at executes
  obtain ⟨memory, made, ⟨q, t⟩, determinized, visits, trailed, o, traced, script, rfl, base⟩ := executes
  have replays := trail_replays _ _ _ trailed
  obtain ⟨-, learns, -⟩ := policy_update_is_exact (Planner.scripted fun _ => none)
    { memory with policy := [([ready], light), ([light], light)] } oven.initialState none q t determinized ovenPlan
    (by rw [script]; rfl)
  obtain ⟨first, policy, acted, -, begins, exact⟩ := learns _ replays
  have begun : first = some warm := (begins _ _ o rfl traced).trans (congrArg some base)
  obtain ⟨agreed, -, -⟩ := exact []
  obtain ⟨-, disputed, -⟩ := exact [ready]
  obtain ⟨-, -, other⟩ := exact [light]
  refine ⟨memory, q, t, _, _, made, determinized, replays, rfl, begun ▸ acted, ?_, ?_, ?_⟩
  · exact agreed warm (by decide) fun other taken => by simpa [ready] using taken
  · exact disputed ⟨"vent", []⟩ ⟨"rest", []⟩ (by decide) (by decide) (by decide)
  · exact (other fun base taken => by simp [light, ready] at taken).trans rfl

end SimpleAgent

end Replan
