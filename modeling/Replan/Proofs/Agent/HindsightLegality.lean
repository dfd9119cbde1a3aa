import Replan.Proofs.Agent.Legality
import Replan.Proofs.Agent.Rollouts

set_option autoImplicit false

namespace Replan

open Results Act

namespace Budget

-- The calls left are few enough to be counted in a word, or nothing is shared among them.
def Shareable (b : Budget) : Prop := b.pool = none ∨ b.callsLeft < UInt32.size

structure Spends (before after : Budget) : Prop where
  unlimited : before.pool = none → after.pool = none
  fewer : after.callsLeft ≤ before.callsLeft

theorem spends_nothing (b : Budget) : b.Spends b := ⟨id, Nat.le_refl _⟩

theorem Spends.trans {a b c : Budget} (first : a.Spends b) (second : b.Spends c) : a.Spends c :=
  ⟨fun unlimited => second.unlimited (first.unlimited unlimited), second.fewer.trans first.fewer⟩

theorem Spends.shareable {before after : Budget} (spends : before.Spends after) (shareable : before.Shareable) :
    after.Shareable :=
  shareable.imp spends.unlimited spends.fewer.trans_lt

theorem charge_spends (b : Budget) (wallTime : Nat) : b.Spends (b.charge wallTime) where
  unlimited none := by rw [charge, none, Option.map_none]
  fewer := Nat.sub_le _ _

theorem slice_succeeds {R : Type} (b : Budget) (shareable : b.Shareable) :
    ∃ limit, (b.slice : Except (Error R) (Option Nat)) = .ok limit := by
  refine b.slice_counted (shareable.imp_right fun few => ?_)
  have one : 1 < UInt32.size := by decide
  rw [shares, Nat.mod_eq_of_lt (Nat.max_lt.mpr ⟨few, one⟩)]
  omega

end Budget

section Plans

theorem Plan.common_of_within (plans : List Plan) (step : Ground) (shared : step ∈ commonOf plans) :
    ∃ plan ∈ plans, step ∈ plan := by
  cases plans with
  | nil => cases shared
  | cons first rest =>
      have begins := (prefix_common_of_iff _ _ (List.cons_ne_nil first rest)).mp (List.prefix_refl _) first List.mem_cons_self
      exact ⟨first, List.mem_cons_self, begins.subset shared⟩

variable {R : Type} [Number R] (p : Problem R) (s : State R)

structure Problem.Opens (plan : Plan) : Prop where
  grounds : ∀ step ∈ plan, p.Grounds step
  first : ∀ step rest, plan = step :: rest → p.CanTake s step

structure Candidate.Legal (candidate : Candidate) : Prop where
  takes : p.CanTake s candidate.action
  grounds : ∀ plan ∈ candidate.plans, ∀ step ∈ plan, p.Grounds step

namespace Candidate

theorem of_plans_legal (plans : List Plan) (each : ∀ plan ∈ plans, p.Opens s plan) :
    ∀ c ∈ ofPlans plans, c.Legal p s := by
  rw [of_plans_grouped]
  intro c member
  obtain ⟨action, first, rfl⟩ := List.mem_map.mp member
  constructor
  · obtain ⟨plan, known, begins⟩ := (Plan.first_actions_cover plans action).mp first
    obtain ⟨rest, rfl⟩ := List.head?_eq_some_iff.mp begins
    exact (each _ known).first action rest rfl
  · exact fun plan grouped => (each plan (List.mem_filter.mp grouped).1).grounds

theorem of_plans_length (plans : List Plan) : (ofPlans plans).length ≤ plans.length := by
  rw [of_plans_grouped, List.length_map]
  exact Plan.first_actions_few plans

end Candidate

end Plans

section Traced

variable {R : Type} [Number R]

theorem Determinizer.Serves.traced_opens {t : Determinizer R} {p : Problem R} {d : Domain R} (serves : t.Serves p d)
    (unread : ∀ a ∈ p.domain.actions, a.precondition.Within (Vocabulary.unread R)) (s : State R)
    (regular : s.Regular p.world) (plan : Plan) (states : List (State R))
    (executed : Executes (t.copy d p s) (t.copy d p s).initialState plan states) :
    ∃ total base, t.tracePlan plan = .ok (total, base) ∧ p.Opens s base := by
  have named := executed_ground _ _ plan states executed
  have each := fun step member => serves.traces_grounded s step (named step member)
  obtain ⟨total, base, traced, related⟩ := t.traced_from plan
    (fun step member => (each step member).imp fun _ => And.left) Number.one
  refine ⟨total, base, traced, fun b member => ?_, ?_⟩
  · obtain ⟨step, inPlan, o, known, rfl⟩ := forall_two_right _ _ _ related b member
    obtain ⟨o', again, based⟩ := each step inPlan
    cases known.symm.trans again
    exact based
  · rintro b rest rfl
    cases related with
    | cons known _ =>
        obtain ⟨o, known, rfl⟩ := known
        obtain ⟨g, grounded, applicable⟩ := executed_first _ _ _ _ states executed
        exact serves.first_step unread regular _ g grounded applicable o known

end Traced

namespace HindsightAgent

variable {R : Type} [Number R] {σ : Type} {planner : Planner R σ} (sound : planner.Sound) {t : Determinizer R}
  {p : Problem R} {d : Domain R} (serves : t.Serves p d)
  (unread : ∀ a ∈ p.domain.actions, a.precondition.Within (Vocabulary.unread R)) (settings : HindsightSettings R)

structure Keeps (t : Determinizer R) (p : Problem R) (memory : HindsightAgent R σ) : Prop where
  problem : memory.problem = p
  determinizer : memory.determinizer = t
  settings : memory.settings = settings
  policy : memory.policy.Grounded p
  primed : ∀ step ∈ memory.primed, p.Grounds step

include sound serves unread

theorem rollout_legal (s : State R) (regular : s.Regular p.world) (budget : Budget) (shareable : budget.Shareable)
    (memory : HindsightAgent R σ) (keeps : memory.Keeps settings t p) :
    Ends (rollout planner (p.anchoredAt s) budget) memory
      (fun drawn left => left.Keeps settings t p ∧ budget.Spends drawn.2 ∧ ∀ plan, drawn.1 = some plan → p.Opens s plan)
      fun _ _ => False := by
  obtain ⟨limit, share⟩ := budget.slice_succeeds (R := R) shareable
  rw [rollout]
  simp only [ends_bind, ends_get, ends_ok, keeps.determinizer, serves.determinizes s]
  simp only [ends_set, share, ends_ok]
  have spends := budget.charge_spends (planner.solve memory.planner (t.copy d p s) limit).1.wallTime
  split
  · exact ⟨⟨keeps.problem, rfl, keeps.settings, keeps.policy, keeps.primed⟩, spends, by rintro _ ⟨⟩⟩
  · next plan planned =>
      obtain ⟨states, executed⟩ := sound _ _ _ plan planned
      obtain ⟨total, base, traced, opens⟩ := serves.traced_opens unread s regular plan states executed
      simp only [ends_bind, ends_ok, ends_pure, traced]
      refine ⟨⟨keeps.problem, rfl, keeps.settings, keeps.policy, keeps.primed⟩, spends, ?_⟩
      rintro _ ⟨⟩
      exact opens

theorem rollouts_legal (s : State R) (regular : s.Regular p.world) (calls : Nat) (budget : Budget)
    (shareable : budget.Shareable) (memory : HindsightAgent R σ) (keeps : memory.Keeps settings t p) :
    Ends (rollouts planner (p.anchoredAt s) budget calls) memory
      (fun drawn left => left.Keeps settings t p ∧ budget.Spends drawn.2 ∧ drawn.1.length = calls ∧
        ∀ plan, some plan ∈ drawn.1 → p.Opens s plan)
      fun _ _ => False := by
  induction calls generalizing budget memory with
  | zero => exact ⟨keeps, budget.spends_nothing, rfl, by simp⟩
  | succ calls ih =>
      rw [rollouts]
      refine ends_then _ _ memory (rollout_legal sound serves unread settings s regular budget shareable memory keeps)
        fun first left known => ?_
      obtain ⟨kept, spends, opens⟩ := known
      refine ends_then _ _ left (ih first.2 (spends.shareable shareable) left kept) fun rest last known => ?_
      obtain ⟨kept, spendsMore, counted, others⟩ := known
      refine ⟨kept, spends.trans spendsMore, congrArg (· + 1) counted, fun plan member => ?_⟩
      exact (List.mem_cons.mp member).elim (fun same => opens plan same.symm) (others plan)

theorem score_legal (s : State R) (regular : s.Regular p.world) (candidate : Candidate) (legal : candidate.Legal p s)
    (budget : Budget) (shareable : budget.Shareable) (memory : HindsightAgent R σ) (keeps : memory.Keeps settings t p) :
    Ends (score planner s candidate budget) memory
      (fun scored left => left.Keeps settings t p ∧ budget.Spends scored.2) fun _ _ => False := by
  rw [score]
  simp only [ends_bind, ends_get]
  split
  · exact ⟨keeps, budget.spends_nothing⟩
  · obtain ⟨g, os, listed⟩ := legal.takes
    obtain ⟨s', sampled, next⟩ := sample_taken p s candidate.action memory.dice g os listed
    have regular' := p.regular_successor regular candidate.action g _ next
    rw [sampledScore]
    simp only [ends_bind, ends_get, ends_ok, ends_set, keeps.problem, sampled]
    have kept : Keeps settings t p { memory with dice := memory.dice.roll.2 } :=
      ⟨keeps.problem, keeps.determinizer, keeps.settings, keeps.policy, keeps.primed⟩
    simp only [keeps.problem] at kept
    split
    · exact ⟨kept, budget.spends_nothing⟩
    · exact ends_then _ _ _ (rollouts_legal sound serves unread settings s' regular' _ budget shareable _ kept)
        fun _ _ known => ⟨known.1, known.2.1⟩

theorem choose_from_legal (s : State R) (regular : s.Regular p.world) (candidates : List Candidate)
    (legal : ∀ c ∈ candidates, c.Legal p s) (best : Option (Candidate × R)) (known : ∀ c points, best = some (c, points) → c.Legal p s)
    (budget : Budget) (shareable : budget.Shareable) (memory : HindsightAgent R σ) (keeps : memory.Keeps settings t p) :
    Ends (chooseFrom planner s best budget candidates) memory
      (fun chosen left => left.Keeps settings t p ∧ ∀ c points, chosen = some (c, points) → c.Legal p s)
      fun _ _ => False := by
  induction candidates generalizing best budget memory with
  | nil => exact ⟨keeps, known⟩
  | cons candidate rest ih =>
      obtain ⟨here, others⟩ := List.forall_mem_cons.mp legal
      rw [chooseFrom]
      refine ends_then _ _ memory (score_legal sound serves unread settings s regular candidate here budget shareable memory
        keeps) fun scored left after => ?_
      refine ih others _ (fun c points chosen => ?_) _ (after.2.shareable shareable) left after.1
      unfold better at chosen
      split at chosen
      · cases chosen
        exact here
      · split at chosen
        · cases chosen
          exact here
        · exact known c points chosen

theorem decide_legal (s : State R) (regular : s.Regular p.world) (remaining : Option Nat)
    (affordable : remaining = none ∨ settings.initialCalls * (1 + settings.callsPerAction) < UInt32.size)
    (memory : HindsightAgent R σ) (keeps : memory.Keeps settings t p) :
    Ends (decide planner s remaining) memory
      (fun choice left => left.Keeps settings t p ∧ ∀ action, choice = some action → p.CanTake s action)
      fun _ _ => False := by
  rw [decide]
  simp only [ends_bind, ends_get, keeps.problem, keeps.settings]
  have first : Budget.Shareable ⟨remaining, settings.initialCalls * (1 + settings.callsPerAction)⟩ := affordable
  refine ends_imp _ memory (rollouts_legal sound serves unread settings s regular _ _ first memory keeps)
    (fun drawn left known => ?_) fun _ _ => id
  obtain ⟨kept, spends, counted, opens⟩ := known
  have found : ∀ plan ∈ drawn.1.filterMap id, p.Opens s plan := by
    intro plan member
    obtain ⟨result, drawn, same⟩ := List.mem_filterMap.mp member
    exact opens plan (same ▸ drawn)
  have few : (Candidate.ofPlans (drawn.1.filterMap id)).length ≤ settings.initialCalls := calc
    _ ≤ (drawn.1.filterMap id).length := Candidate.of_plans_length _
    _ ≤ drawn.1.length := List.length_filterMap_le _ _
    _ = settings.initialCalls := counted
  -- The calls left for scoring are shared among candidates, of which there are no more than plans.
  have second : Budget.Shareable ⟨drawn.2.pool,
      (Candidate.ofPlans (drawn.1.filterMap id)).length * settings.callsPerAction⟩ := by
    refine affordable.imp spends.unlimited fun fewCalls => ?_
    refine (Nat.mul_le_mul few (Nat.le_add_left _ 1)).trans_lt fewCalls
  refine ends_imp _ left (choose_from_legal sound serves unread settings s regular _
    (Candidate.of_plans_legal p s _ found) none (by rintro _ _ ⟨⟩) _ second left kept) (fun chosen last known => ?_)
    fun _ _ => id
  obtain ⟨kept, legal⟩ := known
  split
  · exact ⟨kept, by rintro _ ⟨⟩⟩
  · next c points =>
      have legal := legal c points rfl
      obtain ⟨g, os, listed⟩ := legal.takes
      have grounded : p.Grounds c.action := ⟨g, ((outcomes_in_ok_iff p s c.action g os).mp listed).1⟩
      simp only [ends_bind, ends_modify, ends_pure]
      refine ⟨⟨kept.problem, kept.determinizer, kept.settings, last.policy.grounded_insert p kept.policy _ _ grounded, ?_⟩, ?_⟩
      · intro step member
        obtain ⟨plan, inPlans, inPlan⟩ := Plan.common_of_within _ step (List.mem_of_mem_drop member)
        exact legal.grounds plan inPlans step inPlan
      · rintro _ ⟨⟩
        exact legal.takes

theorem next_unprimed_legal (s : State R) (regular : s.Regular p.world) (remaining : Option Nat)
    (affordable : remaining = none ∨ settings.initialCalls * (1 + settings.callsPerAction) < UInt32.size)
    (memory : HindsightAgent R σ) (keeps : memory.Keeps settings t p) :
    Ends (nextUnprimed planner s remaining) memory
      (fun choice left => left.Keeps settings t p ∧ ∀ action, choice = some action → p.CanTake s action)
      fun _ _ => False := by
  rw [nextUnprimed]
  simp only [ends_bind, ends_get]
  split
  · exact decide_legal sound serves unread settings s regular remaining affordable memory keeps
  · next action found =>
      obtain ⟨a, grounded⟩ := memory.policy.grounded_lookup p keeps.policy _ action found
      simp only [ends_bind, ends_ok, keeps.problem, grounded]
      split
      · next applicable =>
          refine ⟨keeps, ?_⟩
          rintro _ ⟨⟩
          exact serves.takes_applicable s action a grounded applicable
      · simp only [ends_bind, ends_set]
        exact decide_legal sound serves unread settings s regular remaining affordable _
          ⟨rfl, keeps.determinizer, keeps.settings, memory.policy.grounded_erase p keeps.policy _, keeps.primed⟩

theorem chooses_in (timeout : Option Nat)
    (affordable : timeout = none ∨ settings.initialCalls * (1 + settings.callsPerAction) < UInt32.size) :
    (agent planner).ChoosesIn p (Keeps settings t p) timeout := by
  intro s remaining memory regular forever keeps
  replace affordable := affordable.imp_left forever
  change Ends (next planner s remaining) memory _ _
  rw [next]
  simp only [ends_bind, ends_get]
  split
  · exact next_unprimed_legal sound serves unread settings s regular remaining affordable memory keeps
  · next action rest queued =>
      have primed := keeps.primed
      rw [queued] at primed
      obtain ⟨⟨a, grounded⟩, others⟩ := List.forall_mem_cons.mp primed
      simp only [ends_bind, ends_ok, ends_set, keeps.problem, grounded]
      split
      · next applicable =>
          refine ⟨⟨rfl, keeps.determinizer, keeps.settings, keeps.policy, others⟩, ?_⟩
          rintro _ ⟨⟩
          exact serves.takes_applicable s action a grounded applicable
      · simp only [ends_bind, ends_set]
        exact next_unprimed_legal sound serves unread settings s regular remaining affordable _
          ⟨rfl, keeps.determinizer, keeps.settings, keeps.policy, by simp⟩

end HindsightAgent

section Play

variable {R : Type} [Number R]

theorem SimpleAgent.made_keeps {σ : Type} (t : Determinizer R) (p : Problem R) (start : σ)
    (memory : SimpleAgent R σ) (made : ofProblem p t start = .ok memory) :
    ∃ t', t.setDomain p.domain = .ok t' ∧ memory.Keeps t' p := by
  simp only [ofProblem, bind_ok_iff, pure_ok_iff] at made
  obtain ⟨t', domainSet, vocabulary, -, rfl⟩ := made
  exact ⟨t', domainSet, rfl, rfl, by simp [Policy.Grounded]⟩

theorem HindsightAgent.made_keeps {σ : Type} (t : Determinizer R) (p : Problem R) (start : σ)
    (settings : HindsightSettings R) (dice : Dice R) (memory : HindsightAgent R σ)
    (made : ofProblem p t start settings dice = .ok memory) :
    ∃ t', t.setDomain p.domain = .ok t' ∧ memory.Keeps settings t' p := by
  simp only [ofProblem, bind_ok_iff, pure_ok_iff] at made
  obtain ⟨t', domainSet, vocabulary, -, rfl⟩ := made
  exact ⟨t', domainSet, rfl, rfl, rfl, by simp [Policy.Grounded], by simp⟩

/-- With a sound planner both agents play legally, run after run. The calls of the hindsight agent have to be few
enough to be counted in a word, unless there is no deadline. -/
theorem agents_play_legally (p : Problem R) (distinct : (p.domain.actions.map Action.name).Nodup)
    (unread : ∀ a ∈ p.domain.actions, a.precondition.Within (Vocabulary.unread R)) (t : Determinizer R)
    (wheelless : t.strategy.usesWheel = false) {σ : Type} (planner : Planner R σ) (sound : planner.Sound) (start : σ) :
    (∀ memory, SimpleAgent.ofProblem p t start = .ok memory →
      ∀ learnt, (SimpleAgent.agent planner).HasPlayed (fun _ => True) memory learnt →
        ∀ clock sim, (SimpleAgent.agent planner).PlaysLegally clock sim learnt) ∧
    ∀ settings dice memory, HindsightAgent.ofProblem p t start settings dice = .ok memory →
      let fits (sim : Simulator R) :=
        sim.timeout = none ∨ settings.initialCalls * (1 + settings.callsPerAction) < UInt32.size
      ∀ learnt, (HindsightAgent.agent planner).HasPlayed fits memory learnt →
        ∀ clock sim, fits sim → (HindsightAgent.agent planner).PlaysLegally clock sim learnt := by
  constructor
  · intro memory made learnt played clock sim
    obtain ⟨t', domainSet, keeps⟩ := SimpleAgent.made_keeps t p start memory made
    obtain ⟨d, serves⟩ := t.domain_set_serves t' p wheelless distinct domainSet
    exact Agent.played_legally _ clock sim memory p _ (fun _ keeps => keeps.problem) _
      (fun sim _ => SimpleAgent.chooses_in sound serves unread sim.timeout) keeps learnt played trivial
  · intro settings dice memory made fits learnt played clock sim suits
    obtain ⟨t', domainSet, keeps⟩ := HindsightAgent.made_keeps t p start settings dice memory made
    obtain ⟨d, serves⟩ := t.domain_set_serves t' p wheelless distinct domainSet
    exact Agent.played_legally _ clock sim memory p _ (fun _ keeps => keeps.problem) _
      (fun sim suits => HindsightAgent.chooses_in sound serves unread settings sim.timeout suits) keeps learnt played
      suits

end Play

def Problem.permits {R : Type} [Number R] (q : Problem R) (s : State R) : Plan → Bool
  | [] => true
  | step :: rest =>
      match q.ground step with
      | .error _ => false
      | .ok g =>
          match g.apply s none with
          | .ok (some s') => permits q s' rest
          | _ => false

def Planner.offering {R : Type} [Number R] (plans : List Plan) : Planner R Unit where
  solve _ q _ := (⟨plans.find? (q.permits q.initialState), false, 0⟩, ())

theorem Problem.permitted_executes {R : Type} [Number R] (q : Problem R) (plan : Plan) (s : State R)
    (permitted : q.permits s plan = true) : ∃ states, Executes q s plan states := by
  induction plan generalizing s with
  | nil => exact ⟨[], .done s⟩
  | cons step rest ih =>
      rw [permits] at permitted
      split at permitted
      · cases permitted
      · next g grounded =>
          split at permitted
          · next s' applied =>
              obtain ⟨states, executed⟩ := ih s' permitted
              exact ⟨s' :: states, .step s s' step g none rest states grounded applied executed⟩
          · cases permitted

theorem Planner.offering_sound {R : Type} [Number R] (plans : List Plan) : (offering (R := R) plans).Sound :=
  fun _ q _ plan offered => q.permitted_executes plan q.initialState (List.find?_some offered)

theorem agents_play_legally_toss :
    let planner : Planner ℚ Unit :=
      .offering [[⟨"toss_o0", ["cent"]⟩], [⟨"polish_o0", ["cent"]⟩, ⟨"toss_o0", ["cent"]⟩]]
    let t : Determinizer ℚ := Determinizer.ofDice .allOutcome (Dice.always 0)
    let sim : Simulator ℚ := Simulator.ofDice (some 20) (Dice.ofDraws fun k => if k = 0 then 3 / 5 else 0)
    ∃ simple hindsight first second,
      SimpleAgent.ofProblem twoCoins t () = .ok simple ∧
      HindsightAgent.ofProblem twoCoins t () ⟨2, 1, 5⟩ (Dice.always 0) = .ok hindsight ∧
      ((SimpleAgent.agent planner).run id sim simple 4).1 = .ok (some first) ∧ first.steps = 3 ∧
      ((HindsightAgent.agent planner).run id sim hindsight 4).1 = .ok (some second) ∧ second.steps = 3 ∧
      (SimpleAgent.agent planner).PlaysLegally id sim simple ∧
      (HindsightAgent.agent planner).PlaysLegally id sim hindsight := by
  intro planner t sim
  have played : (do
      let simple ← SimpleAgent.ofProblem twoCoins t ()
      let hindsight ← HindsightAgent.ofProblem twoCoins t () ⟨2, 1, 5⟩ (Dice.always 0)
      let first ← ((SimpleAgent.agent planner).run id sim simple 4).1
      let second ← ((HindsightAgent.agent planner).run id sim hindsight 4).1
      pure (first.map RunReport.steps, second.map RunReport.steps)).toOption = some (some 3, some 3) := by
    decide +kernel
  rw [to_option_iff] at played
  simp only [bind_ok_iff, pure_ok_iff, Prod.mk.injEq, Option.map_eq_some_iff] at played
  obtain ⟨simple, made, hindsight, alsoMade, _, ended, _, alsoEnded, ⟨first, rfl, steps⟩, second, rfl, more⟩ := played
  have unread : ∀ a ∈ twoCoins.domain.actions, a.precondition.Within (Vocabulary.unread ℚ) := by
    simp [twoCoins, coins, toss, polish, Query.Within, Query.WithinList, Vocabulary.unread]
  obtain ⟨simply, inHindsight⟩ := agents_play_legally twoCoins (by decide) unread t rfl planner
    (Planner.offering_sound _) ()
  refine ⟨simple, hindsight, first, second, made, alsoMade, ended, steps, alsoEnded, more, ?_, ?_⟩
  · exact simply simple made simple .new id sim
  · exact inHindsight _ _ hindsight alsoMade hindsight .new id sim (.inr (by decide))

end Replan
