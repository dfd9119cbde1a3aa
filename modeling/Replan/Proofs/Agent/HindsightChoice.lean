import Replan.Proofs.Agent.Policy
import Replan.Proofs.Agent.Rollouts
import Replan.Proofs.Number.RankedDoubles

set_option autoImplicit false

namespace Replan

open Results Act Plan

namespace HindsightAgent

section Commits

variable {R σ : Type} {s : State R}

structure Commits (s : State R) (found : List Plan) (memory : HindsightAgent R σ) (action : Ground)
    (last : HindsightAgent R σ) : Prop where
  cached : last.policy.lookup? (s.project memory.vocabulary).key = some action
  others : ∀ key ≠ (s.project memory.vocabulary).key, last.policy.lookup? key = memory.policy.lookup? key
  shared : ∀ plan ∈ found, Begins action plan → action :: last.primed <+: plan
  longest : ∀ start, (∀ plan ∈ found, Begins action plan → start <+: plan) → start <+: action :: last.primed

theorem commits_grouped (found : List Plan) (action : Ground) (known : action ∈ firstActions found)
    (memory final : HindsightAgent R σ) (keeping : memory.Keeping final) :
    Commits s found memory action { final with
      primed := (commonOf (Candidate.group found action).plans).drop 1
      policy := final.policy.insert (s.project final.vocabulary).key action } := by
  have begun (plan : Plan) : plan ∈ (Candidate.group found action).plans ↔ plan ∈ found ∧ Begins action plan := by
    rw [Candidate.group, List.mem_filter, decide_eq_true_iff]
  obtain ⟨first, member, begins⟩ := (first_actions_cover found action).mp known
  have some : (Candidate.group found action).plans ≠ [] := List.ne_nil_of_mem ((begun first).mpr ⟨member, begins⟩)
  have whole := common_of_begins action _ some fun plan member => ((begun plan).mp member).2
  constructor
  · rw [keeping.vocabulary]
    exact final.policy.lookup_insert_self _ action
  · intro key differs
    rw [keeping.vocabulary, ← keeping.policy]
    exact final.policy.lookup_insert_other key _ action differs.symm
  · intro plan member begins
    rw [whole]
    exact (prefix_common_of_iff _ _ some).mp (List.prefix_refl _) plan ((begun plan).mpr ⟨member, begins⟩)
  · intro start shared
    rw [whole]
    exact (prefix_common_of_iff _ _ some).mpr fun plan member =>
      shared plan ((begun plan).mp member).1 ((begun plan).mp member).2

end Commits

variable {R : Type} [Number R] {σ : Type} {planner : Planner R σ} {s : State R}

theorem made_undecided (p : Problem R) (t : Determinizer R) (start : σ) (settings : HindsightSettings R) (dice : Dice R)
    (memory : HindsightAgent R σ) (made : ofProblem p t start settings dice = .ok memory) :
    memory.planner = start ∧ memory.settings = settings ∧ memory.policy = [] ∧ memory.primed = [] ∧
      ∃ versions, memory.determinizer.versions = .ok versions := by
  simp only [ofProblem, Determinizer.setDomain, bind_ok_iff, pure_ok_iff] at made
  obtain ⟨_, ⟨versions, -, rfl⟩, _, -, rfl⟩ := made
  exact ⟨rfl, rfl, rfl, rfl, versions, rfl⟩

def Best (found : List Plan) (actions : List Ground) (scores : List R) : Option (Candidate × R) → Prop
  | none => actions = []
  | some (candidate, top) =>
      ∃ i action, actions[i]? = some action ∧ candidate = Candidate.group found action ∧ Tops scores i top

variable [Number.Ranked R]

theorem better_best (found : List Plan) (actions : List Ground) (scores : List R) (counted : scores.length = actions.length)
    (each : ∀ score ∈ scores, Number.Proper score) (best : Option (Candidate × R)) (known : Best found actions scores best)
    (action : Ground) (x : R) (proper : Number.Proper x) :
    Best found (actions ++ [action]) (scores ++ [x]) (better best (Candidate.group found action) x) := by
  cases best with
  | none =>
      obtain rfl : actions = [] := known
      obtain rfl : scores = [] := List.length_eq_zero_iff.mp counted
      exact ⟨0, action, rfl, rfl, tops_alone x proper⟩
  | some best =>
      obtain ⟨candidate, top⟩ := best
      obtain ⟨i, kept, listed, rfl, tops⟩ := known
      have another := tops_another scores each x proper i top tops
      rw [better]
      split
      · next greater =>
          rw [if_pos greater] at another
          exact ⟨scores.length, action, by rw [counted, List.getElem?_concat_length], rfl, another⟩
      · next less =>
          rw [if_neg less] at another
          obtain ⟨inside, -⟩ := List.getElem?_eq_some_iff.mp listed
          exact ⟨i, kept, (List.getElem?_append_left inside).trans listed, rfl, another⟩

theorem choose_from_best (found : List Plan) (first : Budget) (memory : HindsightAgent R σ) (ready : memory.Ready planner)
    (penalty : Number.Proper memory.settings.penalty) (few : memory.settings.callsPerAction < UInt64.size)
    (rest done : List Ground) (scores : List R) (best : Option (Candidate × R)) (left : Budget) (after : HindsightAgent R σ)
    (scored : ScoresEach planner s found first memory done scores left after) (known : Best found done scores best) :
    Ends (chooseFrom planner s best left (rest.map (Candidate.group found))) after
      (fun chosen final => ∃ all last, ScoresEach planner s found first memory (done ++ rest) all last final ∧
        Best found (done ++ rest) all chosen) fun _ _ => True := by
  induction rest generalizing done scores best left after with
  | nil =>
      rw [List.append_nil]
      exact ⟨scores, left, scored, known⟩
  | cons action rest ih =>
      rw [List.map_cons, chooseFrom]
      refine ends_then _ _ after (score_scores action left after (scored.ready ready)) fun points next another => ?_
      have more := ScoresEach.another _ _ _ _ _ _ action points.1 scored another
      have each := more.proper ready penalty few
      obtain ⟨proper, last⟩ := List.forall_mem_append.mp each
      have kept := better_best found done scores scored.length proper best known action points.1
        (List.forall_mem_singleton.mp last)
      have onward := ih (done ++ [action]) _ _ _ _ more kept
      rwa [List.append_assoc] at onward

-- One of the first actions is taken: all are scored with what is left of the budget, and none before it scores as much.
structure Decides (planner : Planner R σ) (s : State R) (found : List Plan) (budget : Budget) (memory : HindsightAgent R σ)
    (action : Ground) (scores : List R) (i : Nat) (top : R) : Prop where
  scored : ∃ left final, ScoresEach planner s found
    ⟨budget.pool, (firstActions found).length * memory.settings.callsPerAction⟩ memory (firstActions found) scores left final
  listed : (firstActions found)[i]? = some action
  tops : Tops scores i top

section Round

variable (remaining : Option Nat) (memory after : HindsightAgent R σ) (plans : List (Option Plan)) (left : Budget)
  (drew : rollouts planner (memory.problem.anchoredAt s)
    ⟨remaining, memory.settings.initialCalls * (1 + memory.settings.callsPerAction)⟩ memory.settings.initialCalls memory =
      (.ok (plans, left), after))

include drew

omit [Number.Ranked R] in
theorem decide_gives_up (empty : ∀ plan ∈ plans.filterMap id, plan = []) :
    Ends (decide planner s remaining) memory (fun choice last => choice = none ∧ last = after) fun _ _ => False := by
  rw [decide, ends_bind, ends_get, ends_after _ _ memory after _ drew]
  simp only [Candidate.of_plans_grouped, (first_actions_none _).mpr empty]
  exact ⟨rfl, rfl⟩

theorem decide_commits (ready : after.Ready planner) (keeping : memory.Keeping after)
    (penalty : Number.Proper memory.settings.penalty) (few : memory.settings.callsPerAction < UInt64.size)
    (some : ∃ plan ∈ plans.filterMap id, plan ≠ []) :
    Ends (decide planner s remaining) memory
      (fun choice last => ∃ action scores i top, choice = .some action ∧
        Decides planner s (plans.filterMap id) left after action scores i top ∧
        Commits s (plans.filterMap id) memory action last) fun _ _ => True := by
  have settings := keeping.settings
  rw [decide, ends_bind, ends_get, ends_after _ _ memory after _ drew]
  simp only [Candidate.of_plans_grouped, List.length_map, ← settings]
  generalize plans.filterMap id = found at *
  rw [← settings] at penalty few
  refine ends_then _ _ after (choose_from_best found _ after ready penalty few (firstActions found) []
    [] none _ after .start rfl) fun chosen final known => ?_
  obtain ⟨scores, last, scored, best⟩ := known
  cases chosen with
  | none =>
      obtain ⟨plan, member, nonempty⟩ := some
      exact absurd ((first_actions_none found).mp best plan member) nonempty
  | some chosen =>
      obtain ⟨candidate, top⟩ := chosen
      obtain ⟨i, action, listed, rfl, tops⟩ := best
      exact ⟨action, scores, i, top, rfl, ⟨⟨last, final, scored⟩, listed, tops⟩,
        commits_grouped found action (List.mem_of_getElem? listed) memory final (keeping.trans scored.keeping)⟩

end Round

/-- Without anything primed or remembered the agent decides anew. When it has found nothing it says so, unless the
number of calls left does not fit in 32 bits; what it decides for otherwise can only be spoilt by an error in the
second round. -/
theorem choice_is_the_first_best (planner : Planner R σ) (memory : HindsightAgent R σ) (s : State R) (remaining : Option Nat)
    (domainSet : ∃ versions, memory.determinizer.versions = .ok versions)
    (decodes : planner.Decodes memory.determinizer memory.planner) (penalty : Number.Proper memory.settings.penalty)
    (few : memory.settings.callsPerAction < UInt64.size) (unprimed : memory.primed = [])
    (unknown : memory.policy.lookup? (s.project memory.vocabulary).key = none)
    (lasts : Budget.Lasts ⟨remaining, memory.settings.initialCalls * (1 + memory.settings.callsPerAction)⟩
      memory.settings.initialCalls) :
    ∃ plans left after,
      Rolls planner (memory.problem.anchoredAt s)
        ⟨remaining, memory.settings.initialCalls * (1 + memory.settings.callsPerAction)⟩ memory plans left after ∧
      plans.length = memory.settings.initialCalls ∧
      let found := plans.filterMap id
      ((∀ plan ∈ found, plan = []) → next planner s remaining memory = (.ok none, after) ∧
        after.policy = memory.policy ∧ after.primed = memory.primed) ∧
      ((∃ plan ∈ found, plan ≠ []) → ∀ choice last, next planner s remaining memory = (.ok choice, last) →
        ∃ action scores i top, choice = some action ∧ Decides planner s found left after action scores i top ∧
          Commits s found memory action last) := by
  have ready : memory.Ready planner := ⟨domainSet, decodes⟩
  have round := ends_imp _ _ (rollouts_roll (memory.problem.anchoredAt s) memory.settings.initialCalls
    ⟨remaining, memory.settings.initialCalls * (1 + memory.settings.callsPerAction)⟩ memory ready) (fun _ _ => id)
    fun _ _ broken => broken lasts
  obtain ⟨⟨plans, left⟩, after, drew, rolls, made⟩ := (ends_ok_iff _ _ _).mp round
  have decided (good : Option Ground → HindsightAgent R σ → Prop) (bad : Error R → HindsightAgent R σ → Prop) :
      Ends (next planner s remaining) memory good bad ↔ Ends (decide planner s remaining) memory good bad := by
    rw [next, ends_bind, ends_get, unprimed]
    dsimp only
    rw [nextUnprimed, ends_bind, ends_get]
    dsimp only
    rw [unknown]
  refine ⟨plans, left, after, rolls, made, fun empty => ⟨?_, rolls.keeping.policy, rolls.keeping.primed⟩, ?_⟩
  · obtain ⟨_, _, acted, rfl, rfl⟩ := (ends_ok_iff _ _ _).mp
      ((decided _ _).mpr (decide_gives_up remaining memory after plans left drew empty))
    exact acted
  · intro some choice last acted
    exact ends_if_ok _ _ _ _ ((decided _ _).mpr (decide_commits remaining memory after plans left drew (rolls.ready ready)
      rolls.keeping penalty few some)) choice acted

def fairCoin : Problem Float where
  name := "fair-coin"
  domain := {
    name := "coin"
    requirements := [.probabilisticEffects]
    types := Hierarchy.empty
    constants := []
    predicates := [⟨"heads", []⟩]
    functions := []
    actions := [⟨"toss", [], .always, .probabilistic [(Number.ofDecimal 5 1, .add ⟨"heads", []⟩)], none⟩,
      ⟨"polish", [], .always, .conj [], none⟩] }
  objects := []
  init := ⟨[], []⟩
  goal := ⟨.fact ⟨"heads", []⟩, none, none⟩

def eightAttempts : List PlanReport :=
  [some ["polish_o0", "toss_o0"], none, some ["polish_o0", "toss_o0", "toss_o1"], some ["toss_o0"],
    some ["toss_o0"], none, none, some ["toss_o0"]].map fun names =>
      ⟨names.map (·.map fun name => ⟨name, []⟩), false, 10⟩

theorem choice_is_the_first_best_coin :
    let planner : Planner Float (List PlanReport) := .scripted fun _ => none
    let s := fairCoin.initialState
    ∃ memory last plans left after scores i top,
      ofProblem fairCoin (Determinizer.ofDice .allOutcome (Dice.always Number.zero)) eightAttempts
        ⟨4, 2, Number.one / Number.zero⟩ (Dice.always (Number.ofDecimal 9 1)) = .ok memory ∧
      next planner s (some 100) memory = (.ok (some ⟨"polish", []⟩), last) ∧ last.primed = [⟨"toss", []⟩] ∧
      Rolls planner (memory.problem.anchoredAt s) ⟨some 100, 12⟩ memory plans left after ∧
      Decides planner s (plans.filterMap id) left after ⟨"polish", []⟩ scores i top ∧
      Commits s (plans.filterMap id) memory ⟨"polish", []⟩ last := by
  intro planner s
  have executes : (do
      let memory ← ofProblem fairCoin (Determinizer.ofDice .allOutcome (Dice.always Number.zero)) eightAttempts
        ⟨4, 2, Number.one / Number.zero⟩ (Dice.always (Number.ofDecimal 9 1))
      let choice ← (next planner s (some 100) memory).1
      let decoded := eightAttempts.map fun report : PlanReport => report.plan.all fun plan : Plan =>
        plan.length < UInt64.size && (memory.determinizer.tracePlan plan).isOk
      pure (decoded, choice, (next planner s (some 100) memory).2.primed)).toOption =
        some (List.replicate 8 true, some ⟨"polish", []⟩, [⟨"toss", []⟩]) := by
    decide +kernel
  rw [to_option_iff] at executes
  simp only [bind_ok_iff, pure_ok_iff, Prod.mk.injEq] at executes
  obtain ⟨memory, made, choice, acted, decoded, rfl, primed⟩ := executes
  obtain ⟨script, settings, policy, unprimed, domainSet⟩ := made_undecided _ _ _ _ _ _ made
  have decodes : planner.Decodes memory.determinizer memory.planner := by
    rw [script]
    refine Planner.scripted_decodes _ _ fun report member plan found => ?_
    have each := List.eq_of_mem_replicate (decoded ▸ List.mem_map_of_mem member)
    rw [found, Option.all_some, Bool.and_eq_true, is_ok_iff] at each
    exact each.imp_left of_decide_eq_true
  have penalty : Number.Proper (Number.one / Number.zero : Float) := by
    unfold Number.Proper
    decide +kernel
  cases acts : next planner s (some 100) memory with
  | mk result last =>
      rw [acts] at acted primed
      obtain rfl : result = .ok (some ⟨"polish", []⟩) := acted
      obtain ⟨plans, left, after, rolls, -, empty, chosen⟩ := choice_is_the_first_best planner memory s (some 100)
        domainSet decodes (by rw [settings]; exact penalty) (by rw [settings]; decide) unprimed (by rw [policy]; rfl)
        (by rw [settings]; exact .inr (by decide))
      have some : ∃ plan ∈ plans.filterMap id, plan ≠ [] := by
        by_contra none
        push Not at none
        obtain ⟨acted, -⟩ := empty none
        cases acts.symm.trans acted
      obtain ⟨_, scores, i, top, chosen, decides, commits⟩ := chosen some _ last acts
      cases chosen
      rw [settings] at rolls
      exact ⟨memory, last, plans, left, after, scores, i, top, made, acts, primed, rolls, decides, commits⟩

/-- With `2 ^ 32` calls to come, not even the first of them gets a share of the time. -/
theorem choice_fails_beyond_words :
    let planner : Planner Float (List PlanReport) := .scripted fun _ => none
    ∃ memory, ofProblem fairCoin (Determinizer.ofDice .allOutcome (Dice.always Number.zero)) [⟨none, false, 0⟩]
        ⟨1, 4294967295, Number.ofNat 5⟩ (Dice.always Number.zero) = .ok memory ∧
      memory.primed = [] ∧ memory.policy = [] ∧
      (next planner fairCoin.initialState (some 1000000000) memory).1 = .error (.of .noShareOfTime) := by
  intro planner
  have executes : (do
      let memory ← ofProblem fairCoin (Determinizer.ofDice .allOutcome (Dice.always Number.zero))
        [(⟨none, false, 0⟩ : PlanReport)] ⟨1, 4294967295, Number.ofNat 5⟩ (Dice.always Number.zero)
      pure (next planner fairCoin.initialState (some 1000000000) memory).1).toOption =
        some (.error (.of .noShareOfTime)) := by
    decide +kernel
  rw [to_option_iff] at executes
  simp only [bind_ok_iff, pure_ok_iff] at executes
  obtain ⟨memory, made, fails⟩ := executes
  obtain ⟨-, -, policy, unprimed, -⟩ := made_undecided _ _ _ _ _ _ made
  exact ⟨memory, made, unprimed, policy, fails⟩

end HindsightAgent

end Replan
