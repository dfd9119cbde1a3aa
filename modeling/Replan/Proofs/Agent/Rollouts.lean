import Replan.Proofs.Agent.Acts
import Replan.Proofs.Agent.Candidates
import Replan.Proofs.Determinize.Traces

set_option autoImplicit false

namespace Replan

open Results Act

namespace Budget

-- The time can be shared at each of some calls: there is no limit, or never a multiple of `2 ^ 32` calls left.
def Lasts (b : Budget) (calls : Nat) : Prop := b.pool = none ∨ ∀ k < calls, ¬UInt32.size ∣ b.callsLeft - k

theorem slice_counted {R : Type} (b : Budget) (counted : b.pool = none ∨ b.shares ≠ 0) :
    ∃ limit, (b.slice : Except (Error R) (Option Nat)) = .ok limit := by
  unfold slice
  cases pool : b.pool with
  | none => exact ⟨none, rfl⟩
  | some time =>
      have some := counted.resolve_left (by rw [pool]; exact Option.some_ne_none time)
      exact ⟨.some (time / b.shares), if_neg some⟩

theorem Lasts.slice {R : Type} {b : Budget} {calls : Nat} (lasts : b.Lasts (calls + 1)) :
    ∃ limit, (b.slice : Except (Error R) (Option Nat)) = .ok limit := by
  refine b.slice_counted (lasts.imp_right fun each => ?_)
  have odd : ¬UInt32.size ∣ b.callsLeft := each 0 (Nat.succ_pos calls)
  have some : 1 ≤ b.callsLeft := Nat.pos_of_ne_zero fun none => odd (by rw [none]; exact Nat.dvd_zero _)
  rw [shares, Nat.max_eq_left some]
  exact fun none => odd (Nat.dvd_of_mod_eq_zero none)

theorem Lasts.charge {b : Budget} {calls : Nat} (lasts : b.Lasts (calls + 1)) (wallTime : Nat) :
    (b.charge wallTime).Lasts calls := by
  refine lasts.imp (fun unlimited => ?_) fun each k few => ?_
  · rw [Budget.charge, unlimited, Option.map_none]
  · rw [Budget.charge, Nat.sub_sub, Nat.add_comm]
    exact each (k + 1) (Nat.succ_lt_succ few)

end Budget

section Decoding

variable {R σ : Type}

theorem trace_plan_from_same [Number R] (t t' : Determinizer R) (same : t'.versions = t.versions) (plan : Plan) (x : R) :
    t'.tracePlanFrom x plan = t.tracePlanFrom x plan := by
  induction plan generalizing x with
  | nil => rfl
  | cons step rest ih =>
      have traced : t'.trace step = t.trace step := by rw [Determinizer.trace, same, Determinizer.trace]
      rw [Determinizer.tracePlanFrom, Determinizer.tracePlanFrom, traced]
      simp only [ih]

theorem traced_length [Number R] (t : Determinizer R) (plan base : Plan) (x total : R)
    (traced : t.tracePlanFrom x plan = .ok (total, base)) : base.length = plan.length := by
  induction plan generalizing base x total with
  | nil => cases traced; rfl
  | cons step rest ih =>
      simp only [Determinizer.tracePlanFrom, bind_ok_iff, pure_ok_iff, Prod.exists, Prod.mk.injEq] at traced
      obtain ⟨o, -, _, others, found, -, rfl⟩ := traced
      exact congrArg (· + 1) (ih others _ _ found)

inductive Planner.Reaches (planner : Planner R σ) (start : σ) : σ → Prop
  | start : planner.Reaches start start
  | solved (memory : σ) (q : Problem R) (limit : Option Nat) :
      planner.Reaches start memory → planner.Reaches start (planner.solve memory q limit).2

theorem Planner.Reaches.trans {planner : Planner R σ} {first second third : σ} (early : planner.Reaches first second)
    (late : planner.Reaches second third) : planner.Reaches first third := by
  induction late with
  | start => exact early
  | solved memory q limit _ ih => exact .solved memory q limit ih

-- All plans that a planner will find are plans for the model, and their steps can be counted in a word.
def Planner.Decodes [Number R] (planner : Planner R σ) (t : Determinizer R) (start : σ) : Prop :=
  ∀ memory, planner.Reaches start memory → ∀ q limit plan, (planner.solve memory q limit).1.plan = some plan →
    plan.length < UInt64.size ∧ ∃ decoded, t.tracePlan plan = .ok decoded

theorem Planner.scripted_decodes [Number R] (t : Determinizer R) (reports : List PlanReport)
    (each : ∀ report ∈ reports, ∀ plan, report.plan = some plan →
      plan.length < UInt64.size ∧ ∃ decoded, t.tracePlan plan = .ok decoded) :
    (scripted fun _ => none : Planner R (List PlanReport)).Decodes t reports := by
  intro memory reached
  have within : ∀ report ∈ memory, report ∈ reports := by
    induction reached with
    | start => exact fun _ => id
    | solved memory q limit _ ih =>
        cases memory with
        | nil => exact ih
        | cons report rest => exact (List.forall_mem_cons.mp ih).2
  intro q limit plan found
  cases memory with
  | nil => cases found
  | cons report rest => exact each report (within report List.mem_cons_self) plan found

end Decoding

namespace HindsightAgent

section Keeping

variable {R σ : Type}

structure Keeping (before after : HindsightAgent R σ) : Prop where
  problem : after.problem = before.problem
  settings : after.settings = before.settings
  vocabulary : after.vocabulary = before.vocabulary
  policy : after.policy = before.policy
  primed : after.primed = before.primed

theorem keeping_itself (memory : HindsightAgent R σ) : memory.Keeping memory := ⟨rfl, rfl, rfl, rfl, rfl⟩

theorem Keeping.trans {a b c : HindsightAgent R σ} (first : a.Keeping b) (second : b.Keeping c) : a.Keeping c where
  problem := second.problem.trans first.problem
  settings := second.settings.trans first.settings
  vocabulary := second.vocabulary.trans first.vocabulary
  policy := second.policy.trans first.policy
  primed := second.primed.trans first.primed

end Keeping

variable {R : Type} [Number R] {σ : Type} (planner : Planner R σ)

-- A rollout from one memory to another: a copy is drawn and solved in a share of the budget, and the plan is decoded.
inductive Rolled (anchored : Problem R) (budget : Budget) (memory : HindsightAgent R σ) :
    Option Plan → Budget → HindsightAgent R σ → Prop
  | failed (q : Problem R) (t : Determinizer R) (limit : Option Nat) :
      memory.determinizer.determinize anchored = .ok (q, t) → (budget.slice : Except (Error R) (Option Nat)) = .ok limit →
      (planner.solve memory.planner q limit).1.plan = none →
      Rolled anchored budget memory none (budget.charge (planner.solve memory.planner q limit).1.wallTime)
        { memory with
          determinizer := t, planner := (planner.solve memory.planner q limit).2, invocations := memory.invocations + 1 }
  | found (q : Problem R) (t : Determinizer R) (limit : Option Nat) (plan base : Plan) (probability : R) :
      memory.determinizer.determinize anchored = .ok (q, t) → (budget.slice : Except (Error R) (Option Nat)) = .ok limit →
      (planner.solve memory.planner q limit).1.plan = some plan → t.tracePlan plan = .ok (probability, base) →
      Rolled anchored budget memory (some base) (budget.charge (planner.solve memory.planner q limit).1.wallTime)
        { memory with
          determinizer := t, planner := (planner.solve memory.planner q limit).2, invocations := memory.invocations + 1 }

inductive Rolls (anchored : Problem R) :
    Budget → HindsightAgent R σ → List (Option Plan) → Budget → HindsightAgent R σ → Prop
  | done (budget : Budget) (memory : HindsightAgent R σ) : Rolls anchored budget memory [] budget memory
  | more (budget left last : Budget) (memory next after : HindsightAgent R σ) (found : Option Plan)
      (plans : List (Option Plan)) : Rolled planner anchored budget memory found left next →
      Rolls anchored left next plans last after → Rolls anchored budget memory (found :: plans) last after

structure Ready (memory : HindsightAgent R σ) : Prop where
  domainSet : ∃ versions, memory.determinizer.versions = .ok versions
  decodes : planner.Decodes memory.determinizer memory.planner

variable {planner}

theorem Ready.after_call {memory : HindsightAgent R σ} (ready : memory.Ready planner) (anchored q : Problem R)
    (t : Determinizer R) (copied : memory.determinizer.determinize anchored = .ok (q, t)) (limit : Option Nat)
    (calls : Nat) :
    Ready planner { memory with
      determinizer := t, planner := (planner.solve memory.planner q limit).2, invocations := calls } where
  domainSet := by rw [determinize_keeps _ _ _ _ copied]; exact ready.domainSet
  decodes later reached q' limit' plan found := by
    rw [Determinizer.tracePlan, trace_plan_from_same _ _ (determinize_keeps _ _ _ _ copied)]
    exact ready.decodes later (.trans (.solved _ q limit .start) reached) q' limit' plan found

section Step

variable {anchored : Problem R} {budget left : Budget} {memory after : HindsightAgent R σ} {found : Option Plan}

theorem Rolled.keeping (rolled : Rolled planner anchored budget memory found left after) : memory.Keeping after := by
  cases rolled <;> exact ⟨rfl, rfl, rfl, rfl, rfl⟩

theorem Rolled.charges (rolled : Rolled planner anchored budget memory found left after) :
    ∃ wallTime, left = budget.charge wallTime := by
  cases rolled <;> exact ⟨_, rfl⟩

theorem Rolled.ready (rolled : Rolled planner anchored budget memory found left after) (ready : memory.Ready planner) :
    after.Ready planner := by
  cases rolled with
  | failed q t limit copied => exact ready.after_call anchored q t copied limit _
  | found q t limit _ _ _ copied => exact ready.after_call anchored q t copied limit _

theorem Rolled.counted (rolled : Rolled planner anchored budget memory found left after) (ready : memory.Ready planner)
    (plan : Plan) (same : found = some plan) : plan.length < UInt64.size := by
  cases rolled with
  | failed => cases same
  | found q t limit raw _ probability _ _ known decoded =>
      cases same
      rw [traced_length _ _ _ _ _ decoded]
      exact (ready.decodes _ .start q limit raw known).1

theorem rollout_rolls (anchored : Problem R) (budget : Budget) (memory : HindsightAgent R σ) (ready : memory.Ready planner) :
    Ends (rollout planner anchored budget) memory
      (fun drawn left => Rolled planner anchored budget memory drawn.1 drawn.2 left) fun e _ => budget.slice = .error e := by
  have copies : ∃ copy, memory.determinizer.determinize anchored = .ok copy := (map_succeeds_iff _ _).mpr ready.domainSet
  obtain ⟨⟨q, t⟩, copied⟩ := copies
  rw [rollout]
  simp only [ends_bind, ends_get, ends_ok, copied]
  cases share : (budget.slice : Except (Error R) (Option Nat)) with
  | error e => exact rfl
  | ok limit =>
      simp only [ends_ok, ends_set]
      cases known : (planner.solve memory.planner q limit).1.plan with
      | none => exact .failed q t limit copied share known
      | some plan =>
          obtain ⟨-, ⟨probability, base⟩, decoded⟩ := ready.decodes _ .start q limit plan known
          have same := determinize_keeps _ _ _ _ copied
          rw [Determinizer.tracePlan, ← trace_plan_from_same _ t same] at decoded
          simp only [ends_bind, Determinizer.tracePlan, decoded, ends_ok, ends_pure]
          exact .found q t limit plan base probability copied share known decoded

end Step

section Round

variable {anchored : Problem R} {budget left : Budget} {memory after : HindsightAgent R σ} {plans : List (Option Plan)}

theorem Rolls.keeping (rolls : Rolls planner anchored budget memory plans left after) : memory.Keeping after := by
  induction rolls with
  | done budget memory => exact memory.keeping_itself
  | more _ _ _ _ _ _ _ _ first _ ih => exact first.keeping.trans ih

theorem Rolls.ready (rolls : Rolls planner anchored budget memory plans left after) (ready : memory.Ready planner) :
    after.Ready planner := by
  induction rolls with
  | done => exact ready
  | more _ _ _ _ _ _ _ _ first _ ih => exact ih (first.ready ready)

theorem Rolls.counted (rolls : Rolls planner anchored budget memory plans left after) (ready : memory.Ready planner)
    (plan : Plan) (member : some plan ∈ plans) : plan.length < UInt64.size := by
  induction rolls with
  | done => cases member
  | more _ _ _ _ _ _ _ _ first _ ih =>
      rcases List.mem_cons.mp member with here | later
      · exact first.counted ready plan here.symm
      · exact ih (first.ready ready) later

theorem rollouts_roll (anchored : Problem R) (calls : Nat) (budget : Budget) (memory : HindsightAgent R σ)
    (ready : memory.Ready planner) :
    Ends (rollouts planner anchored budget calls) memory
      (fun drawn left => Rolls planner anchored budget memory drawn.1 drawn.2 left ∧ drawn.1.length = calls)
      fun _ _ => ¬budget.Lasts calls := by
  induction calls generalizing budget memory with
  | zero => exact ⟨.done budget memory, rfl⟩
  | succ calls ih =>
      rw [rollouts]
      refine ends_then _ _ memory (ends_imp _ _ (rollout_rolls anchored budget memory ready) (fun _ _ => id)
        fun e _ broken => ?_) fun drawn left first => ?_
      · intro lasts
        obtain ⟨limit, share⟩ := lasts.slice
        cases broken.symm.trans share
      · refine ends_then _ _ left (ends_imp _ _ (ih drawn.2 left (first.ready ready)) (fun _ _ => id)
          fun _ _ fails lasts => ?_) fun rest last known => ?_
        · obtain ⟨wallTime, charged⟩ := first.charges
          exact fails (charged ▸ lasts.charge wallTime)
        · exact ⟨.more _ _ _ _ _ _ _ _ first known.1, congrArg (· + 1) known.2⟩

end Round

section Scores

open Plan

variable (planner) (s : State R) (found : List Plan)

-- The score of a first action. Without a second round it is the number of plans that begin with the action, and
-- otherwise the mean over rollouts from its sampled successor, unless that is a goal already.
inductive Scores (action : Ground) (budget : Budget) (memory : HindsightAgent R σ) : R → Budget → HindsightAgent R σ → Prop
  | counted : memory.settings.callsPerAction = 0 →
      Scores action budget memory (Number.ofNat (found.countP (Begins action))) budget memory
  | reached (dice : Dice R) (successor : State R) : memory.settings.callsPerAction ≠ 0 →
      memory.problem.sample s action memory.dice = (.ok successor, dice) → memory.problem.isGoal successor = true →
      Scores action budget memory Number.zero budget { memory with dice }
  | mean (dice : Dice R) (successor : State R) (plans : List (Option Plan)) (left : Budget) (after : HindsightAgent R σ) :
      memory.settings.callsPerAction ≠ 0 →
      memory.problem.sample s action memory.dice = (.ok successor, dice) → memory.problem.isGoal successor = false →
      Rolls planner (memory.problem.anchoredAt successor) budget { memory with dice } plans left after →
      plans.length = memory.settings.callsPerAction →
      Scores action budget memory
        (Number.sum (plans.map (reward memory.settings.penalty)) / Number.ofNat memory.settings.callsPerAction) left after

inductive ScoresEach (budget : Budget) (memory : HindsightAgent R σ) :
    List Ground → List R → Budget → HindsightAgent R σ → Prop
  | start : ScoresEach budget memory [] [] budget memory
  | another (actions : List Ground) (scores : List R) (left last : Budget) (after final : HindsightAgent R σ)
      (action : Ground) (score : R) : ScoresEach budget memory actions scores left after →
      Scores planner s found action left after score last final →
      ScoresEach budget memory (actions ++ [action]) (scores ++ [score]) last final

variable {planner s found} {action : Ground} {budget left : Budget} {memory after : HindsightAgent R σ} {x : R}

theorem Scores.keeping (scored : Scores planner s found action budget memory x left after) : memory.Keeping after := by
  cases scored with
  | counted => exact memory.keeping_itself
  | reached => exact ⟨rfl, rfl, rfl, rfl, rfl⟩
  | mean _ _ _ _ _ _ _ _ rolls => exact ⟨rolls.keeping.1, rolls.keeping.2, rolls.keeping.3, rolls.keeping.4, rolls.keeping.5⟩

theorem Scores.ready (scored : Scores planner s found action budget memory x left after) (ready : memory.Ready planner) :
    after.Ready planner := by
  cases scored with
  | counted => exact ready
  | reached => exact ⟨ready.domainSet, ready.decodes⟩
  | mean _ _ _ _ _ _ _ _ rolls => exact rolls.ready ⟨ready.domainSet, ready.decodes⟩

theorem Scores.proper [Number.Ranked R] (scored : Scores planner s found action budget memory x left after)
    (ready : memory.Ready planner) (penalty : Number.Proper memory.settings.penalty)
    (few : memory.settings.callsPerAction < UInt64.size) : Number.Proper x := by
  cases scored with
  | counted => exact Number.Ranked.whole _
  | reached => exact Number.Ranked.whole 0
  | mean dice successor plans _ _ some _ _ rolls _ =>
      refine Number.Ranked.share _ _ ?_ (Nat.pos_of_ne_zero some) few
      refine Number.Ranked.sum (-memory.settings.penalty) _ (Number.Ranked.negative _ penalty) fun reward member => ?_
      obtain ⟨result, drawn, rfl⟩ := List.mem_map.mp member
      cases result with
      | none => exact .inl rfl
      | some plan => exact .inr ⟨plan.length, rolls.counted ⟨ready.domainSet, ready.decodes⟩ plan drawn, rfl⟩

theorem score_scores (action : Ground) (budget : Budget) (memory : HindsightAgent R σ) (ready : memory.Ready planner) :
    Ends (score planner s (Candidate.group found action) budget) memory
      (fun scored left => Scores planner s found action budget memory scored.1 scored.2 left) fun _ _ => True := by
  rw [score]
  simp only [ends_bind, ends_get]
  split
  · next none =>
      have count : (Candidate.group found action).plans.length = found.countP (Begins action) := by
        rw [Candidate.group, ← List.countP_eq_length_filter]
      rw [count]
      exact .counted none
  · next some =>
      change Ends (sampledScore planner s action budget) memory _ _
      rw [sampledScore]
      simp only [ends_bind, ends_get, ends_set]
      cases sampled : memory.problem.sample s action memory.dice with
      | mk outcome dice =>
          cases outcome with
          | error e => trivial
          | ok successor =>
              simp only [ends_ok]
              cases solved : memory.problem.isGoal successor with
              | true => exact .reached dice successor some sampled solved
              | false =>
                  refine ends_then _ _ _ (ends_imp _ _ (rollouts_roll _ _ budget _ ⟨ready.domainSet, ready.decodes⟩)
                    (fun _ _ => id) fun _ _ _ => trivial) fun drawn left known => ?_
                  obtain ⟨rolls, made⟩ := known
                  have calls : max drawn.1.length 1 = memory.settings.callsPerAction := by
                    rw [made]
                    exact Nat.max_eq_left (Nat.pos_of_ne_zero some)
                  rw [ends_pure, HindsightAgent.mean, calls]
                  exact .mean dice successor drawn.1 drawn.2 left some sampled solved rolls made

variable {actions : List Ground} {scores : List R}

theorem ScoresEach.length (scored : ScoresEach planner s found budget memory actions scores left after) :
    scores.length = actions.length := by
  induction scored with
  | start => rfl
  | another _ _ _ _ _ _ _ _ _ _ ih => rw [List.length_append, List.length_append, ih]; rfl

theorem ScoresEach.keeping (scored : ScoresEach planner s found budget memory actions scores left after) :
    memory.Keeping after := by
  induction scored with
  | start => exact memory.keeping_itself
  | another _ _ _ _ _ _ _ _ _ last ih => exact ih.trans last.keeping

theorem ScoresEach.ready (scored : ScoresEach planner s found budget memory actions scores left after)
    (ready : memory.Ready planner) : after.Ready planner := by
  induction scored with
  | start => exact ready
  | another _ _ _ _ _ _ _ _ _ last ih => exact last.ready ih

theorem ScoresEach.proper [Number.Ranked R] (scored : ScoresEach planner s found budget memory actions scores left after)
    (ready : memory.Ready planner) (penalty : Number.Proper memory.settings.penalty)
    (few : memory.settings.callsPerAction < UInt64.size) : ∀ score ∈ scores, Number.Proper score := by
  induction scored with
  | start => simp
  | another _ _ _ _ _ _ _ _ others last ih =>
      have settings := others.keeping.settings
      refine List.forall_mem_append.mpr ⟨ih, List.forall_mem_singleton.mpr ?_⟩
      exact last.proper (others.ready ready) (by rwa [settings]) (by rwa [settings])

end Scores

end HindsightAgent

end Replan
