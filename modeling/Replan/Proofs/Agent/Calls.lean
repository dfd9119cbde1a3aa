import Replan.Proofs.Agent.Rollouts
import Replan.Proofs.Effect.Nesting
import Replan.Proofs.Simulator

set_option autoImplicit false

namespace Replan

open Results Act

def PlannerCall.wallTimes {R : Type} (calls : List (PlannerCall R)) : Nat :=
  (calls.map fun call => call.report.wallTime).sum

theorem PlannerCall.wall_times_append {R : Type} (first second : List (PlannerCall R)) :
    wallTimes (first ++ second) = wallTimes first + wallTimes second := by
  rw [wallTimes, List.map_append, List.sum_append]
  rfl

namespace Budget

variable {R : Type}

def after (b : Budget) (calls : List (PlannerCall R)) : Budget :=
  calls.foldl (fun b call => b.charge call.report.wallTime) b

-- Each call has been given its share of what the calls before it left.
def Shared (b : Budget) : List (PlannerCall R) → Prop
  | [] => True
  | call :: rest =>
      (b.slice : Except (Error R) (Option Nat)) = .ok call.limit ∧ (b.charge call.report.wallTime).Shared rest

theorem after_append (b : Budget) (first second : List (PlannerCall R)) :
    b.after (first ++ second) = (b.after first).after second := List.foldl_append

theorem shared_append (b : Budget) (first second : List (PlannerCall R)) :
    b.Shared (first ++ second) ↔ b.Shared first ∧ (b.after first).Shared second := by
  induction first generalizing b with
  | nil => exact (true_and _).symm ▸ Iff.rfl
  | cons call first ih => rw [List.cons_append, Shared, Shared, ih, and_assoc]; rfl

theorem after_pool (b : Budget) (calls : List (PlannerCall R)) :
    (b.after calls).pool = b.pool.map fun pool => pool - PlannerCall.wallTimes calls := by
  induction calls generalizing b with
  | nil => exact Option.map_id'.symm
  | cons call calls ih =>
      have spent : PlannerCall.wallTimes (call :: calls) = call.report.wallTime + PlannerCall.wallTimes calls := rfl
      rw [after, List.foldl_cons, ← after, ih, charge, Option.map_map, spent]
      simp only [Function.comp_def, Nat.sub_sub]

theorem after_calls_left (b : Budget) (calls : List (PlannerCall R)) :
    (b.after calls).callsLeft = b.callsLeft - calls.length := by
  induction calls generalizing b with
  | nil => rfl
  | cons call calls ih =>
      rw [after, List.foldl_cons, ← after, ih, charge, Nat.sub_sub, List.length_cons, Nat.add_comm]

end Budget

section Faults

variable {R : Type}

def Shareless {β : Type} (x : Except (Error R) β) : Prop := Fails (· ≠ .of .noShareOfTime) x

theorem Shareless.other {β : Type} {x : Except (Error R) β} {e : Error R} (shareless : Shareless x)
    (failed : x = .error e) : e ≠ .of .noShareOfTime := by
  rw [failed] at shareless
  exact shareless

theorem ground_shareless (p : Problem R) (step : Ground) : Shareless (p.ground step) := by
  rw [Problem.ground]
  split
  · rintro ⟨⟩
  · rw [Action.ground]
    split
    · trivial
    · rintro ⟨⟩

theorem versions_shareless (t : Determinizer R) : Shareless t.versions := by
  unfold Determinizer.versions
  split
  · rintro ⟨⟩
  · trivial

variable [Number R]

theorem trace_shareless (t : Determinizer R) (step : Ground) : Shareless (t.trace step) := by
  refine fails_bind _ _ (versions_shareless t) fun versions => ?_
  split
  · rintro ⟨⟩
  · split
    · trivial
    · split
      · rintro ⟨⟩
      · trivial

theorem determinize_shareless (t : Determinizer R) (p : Problem R) : Shareless (t.determinize p) :=
  (fails_map _ _).mpr (versions_shareless t)

theorem trace_plan_shareless (t : Determinizer R) (plan : Plan) : Shareless (t.tracePlan plan) := by
  have onward (x : R) : Shareless (t.tracePlanFrom x plan) := by
    induction plan generalizing x with
    | nil => trivial
    | cons step rest ih => exact fails_bind _ _ (trace_shareless t step) fun o => fails_bind _ _ (ih _) fun _ => trivial
  exact onward _

theorem sample_shareless (p : Problem R) (s : State R) (step : Ground) (dice : Dice R) :
    Shareless (p.sample s step dice).1 := by
  have listing : Shareless (p.outcomesIn s step) := by
    refine fails_bind _ _ (ground_shareless p step) fun g => ?_
    split
    · refine fails_bind _ _ ?_ fun _ => trivial
      have nested := g.effect.expand_fails
      cases expanded : g.effect.expand with
      | ok os => trivial
      | error e =>
          rw [expanded] at nested
          obtain rfl : e = .of .nestedProbabilisticEffect := nested
          rintro ⟨⟩
    · rintro ⟨⟩
  cases listed : p.outcomesIn s step with
  | error e =>
      rw [sample_refused p s step dice e listed]
      rw [listed] at listing
      exact listing
  | ok found =>
      obtain ⟨g, os⟩ := found
      obtain ⟨s', sampled, -⟩ := sample_taken p s step dice g os listed
      rw [sampled]
      trivial

end Faults

theorem Planner.recorded_solves {R σ : Type} (planner : Planner R σ) (memory : σ × List (PlannerCall R)) (q : Problem R)
    (limit : Option Nat) :
    planner.recorded.solve memory q limit =
      ((planner.solve memory.1 q limit).1, (planner.solve memory.1 q limit).2,
        memory.2 ++ [⟨q, limit, (planner.solve memory.1 q limit).1⟩]) := rfl

section Decoding

variable {R : Type} [Number R]

def Determinizer.decoded (t : Determinizer R) (calls : List (PlannerCall R)) : List Plan :=
  calls.filterMap fun call => call.report.plan.bind fun plan => (t.tracePlan plan).toOption.map Prod.snd

theorem Determinizer.decoded_same (t t' : Determinizer R) (same : t'.versions = t.versions)
    (calls : List (PlannerCall R)) : t'.decoded calls = t.decoded calls := by
  unfold decoded tracePlan
  simp only [trace_plan_from_same t t' same]

end Decoding

namespace HindsightAgent

section Records

abbrev Logged (R σ : Type) := HindsightAgent R (σ × List (PlannerCall R))

variable {R : Type} {σ : Type}

-- The calls between two memories, made out of one budget.
structure Calls (before after : Logged R σ) (budget : Budget) (calls : List (PlannerCall R)) : Prop where
  recorded : after.planner.2 = before.planner.2 ++ calls
  shared : budget.Shared calls
  settings : after.settings = before.settings
  versions : after.determinizer.versions = before.determinizer.versions

theorem Calls.append {first second third : Logged R σ} {budget : Budget} {calls more : List (PlannerCall R)}
    (early : first.Calls second budget calls) (late : second.Calls third (budget.after calls) more) :
    first.Calls third budget (calls ++ more) where
  recorded := by rw [late.recorded, early.recorded, List.append_assoc]
  shared := (budget.shared_append calls more).mpr ⟨early.shared, late.shared⟩
  settings := late.settings.trans early.settings
  versions := late.versions.trans early.versions

theorem no_calls (memory : Logged R σ) (budget : Budget) : memory.Calls memory budget [] :=
  ⟨(List.append_nil _).symm, trivial, rfl, rfl⟩

structure Breaks (before after : Logged R σ) (budget : Budget) (most : Nat) (e : Error R)
    (calls : List (PlannerCall R)) : Prop extends Calls before after budget calls where
  few : calls.length ≤ most
  due : e = .of .noShareOfTime → calls.length < most ∧
    ((budget.after calls).slice : Except (Error R) (Option Nat)) = .error e

theorem Breaks.later {first second third : Logged R σ} {budget : Budget} {most total : Nat} {e : Error R}
    {calls more : List (PlannerCall R)} (early : first.Calls second budget calls)
    (late : second.Breaks third (budget.after calls) most e more) (enough : calls.length + most ≤ total) :
    first.Breaks third budget total e (calls ++ more) where
  toCalls := early.append late.toCalls
  few := by
    have few := late.few
    rw [List.length_append]
    omega
  due short := by
    obtain ⟨few, broken⟩ := late.due short
    rw [List.length_append, Budget.after_append]
    exact ⟨by omega, broken⟩

theorem breaks_later {first second third : Logged R σ} {budget : Budget} {calls : List (PlannerCall R)}
    (early : first.Calls second budget calls) (most total : Nat) (enough : calls.length + most ≤ total) (e : Error R)
    (broken : ∃ more, second.Breaks third (budget.after calls) most e more) :
    ∃ all, first.Breaks third budget total e all :=
  broken.imp' (calls ++ ·) fun _ late => late.later early enough

theorem Breaks.earlier {before after : Logged R σ} {budget : Budget} {most total : Nat} {e : Error R}
    {calls : List (PlannerCall R)} (breaks : before.Breaks after budget most e calls)
    (enough : most ≤ total) : before.Breaks after budget total e calls :=
  .later (before.no_calls budget) breaks (by simpa using enough)

end Records

variable {R : Type} [Number R] {σ : Type} (planner : Planner R σ)

theorem rollout_calls (anchored : Problem R) (budget : Budget) (memory : Logged R σ) :
    Ends (rollout planner.recorded anchored budget) memory
      (fun drawn left => ∃ call, memory.Calls left budget [call] ∧ drawn.2 = budget.after [call] ∧
        drawn.1.toList = memory.determinizer.decoded [call])
      fun e left => ∃ calls, memory.Breaks left budget 1 e calls := by
  rw [rollout]
  simp only [ends_bind, ends_get]
  cases copied : memory.determinizer.determinize anchored with
  | error e =>
      exact ⟨[], memory.no_calls budget, Nat.zero_le 1, fun short =>
        absurd short ((determinize_shareless _ anchored).other copied)⟩
  | ok copy =>
      obtain ⟨q, t⟩ := copy
      have same := determinize_keeps _ _ _ _ copied
      simp only [ends_ok]
      cases share : (budget.slice : Except (Error R) (Option Nat)) with
      | error e => exact ⟨[], memory.no_calls budget, Nat.zero_le 1, fun _ => ⟨Nat.one_pos, share⟩⟩
      | ok limit =>
          simp only [ends_ok, ends_set, Planner.recorded_solves]
          generalize planner.solve memory.planner.1 q limit = answer
          obtain ⟨report, next⟩ := answer
          let call : PlannerCall R := ⟨q, limit, report⟩
          have made : memory.Calls { memory with
              determinizer := t, planner := (next, memory.planner.2 ++ [call]), invocations := memory.invocations + 1 }
              budget [call] := ⟨rfl, ⟨share, trivial⟩, rfl, same⟩
          cases known : report.plan with
          | none =>
              refine ⟨call, made, rfl, ?_⟩
              simp [Determinizer.decoded, call, known]
          | some plan =>
              simp only [ends_bind]
              cases traced : t.tracePlan plan with
              | error e =>
                  exact ⟨[call], made, Nat.le_refl 1, fun short =>
                    absurd short ((trace_plan_shareless t plan).other traced)⟩
              | ok decoded =>
                  refine ⟨call, made, rfl, ?_⟩
                  rw [Determinizer.tracePlan, trace_plan_from_same _ t same, ← Determinizer.tracePlan] at traced
                  simp [Determinizer.decoded, call, known, traced, Except.toOption]

theorem rollouts_calls (anchored : Problem R) (count : Nat) (budget : Budget) (memory : Logged R σ) :
    Ends (rollouts planner.recorded anchored budget count) memory
      (fun drawn left => ∃ calls, memory.Calls left budget calls ∧ drawn.2 = budget.after calls ∧ calls.length = count ∧
        drawn.1.filterMap id = memory.determinizer.decoded calls)
      fun e left => ∃ calls, memory.Breaks left budget count e calls := by
  induction count generalizing budget memory with
  | zero => exact ⟨[], memory.no_calls budget, rfl, rfl, rfl⟩
  | succ count ih =>
      rw [rollouts]
      refine ends_then _ _ memory (ends_imp _ _ (rollout_calls planner anchored budget memory) (fun _ _ => id)
        fun e _ broken => ?_) fun drawn next first => ?_
      · obtain ⟨calls, breaks⟩ := broken
        exact ⟨calls, breaks.earlier (Nat.le_add_left 1 count)⟩
      · obtain ⟨plan, _⟩ := drawn
        obtain ⟨call, made, rfl, decoded⟩ := first
        refine ends_then _ _ next (ends_imp _ _ (ih (budget.after [call]) next) (fun _ _ => id)
          fun e _ broken => breaks_later made _ _ (Nat.le_of_eq (Nat.add_comm 1 count)) e broken)
          fun others last rest => ?_
        obtain ⟨calls, more, left, length, others'⟩ := rest
        refine ⟨[call] ++ calls, made.append more, ?_, ?_, ?_⟩
        · rw [Budget.after_append]
          exact left
        · rw [List.length_append, length, Nat.add_comm]
          rfl
        · rw [Determinizer.decoded_same _ _ made.versions] at others'
          rw [Determinizer.decoded, List.filterMap_append, ← Determinizer.decoded, ← Determinizer.decoded, ← decoded,
            ← others']
          cases plan <;> rfl

theorem score_calls (s : State R) (candidate : Candidate) (budget : Budget) (memory : Logged R σ) :
    Ends (score planner.recorded s candidate budget) memory
      (fun scored left => ∃ calls, memory.Calls left budget calls ∧ scored.2 = budget.after calls ∧
        calls.length ≤ memory.settings.callsPerAction)
      fun e left => ∃ calls, memory.Breaks left budget memory.settings.callsPerAction e calls := by
  rw [score]
  simp only [ends_bind, ends_get]
  split
  · exact ⟨[], memory.no_calls budget, rfl, Nat.zero_le _⟩
  · rw [sampledScore]
    simp only [ends_bind, ends_get, ends_set]
    have sampling := sample_shareless memory.problem s candidate.action memory.dice
    generalize memory.problem.sample s candidate.action memory.dice = outcome at sampling
    obtain ⟨sampled, dice⟩ := outcome
    have same : memory.Calls { memory with dice } budget [] := ⟨(List.append_nil _).symm, trivial, rfl, rfl⟩
    cases sampled with
    | error e => exact ⟨[], same, Nat.zero_le _, fun short => absurd short sampling⟩
    | ok successor =>
        simp only [ends_ok]
        split
        · exact ⟨[], same, rfl, Nat.zero_le _⟩
        · refine ends_then _ _ _ (ends_imp _ _ (rollouts_calls planner _ _ budget _) (fun _ _ => id)
            fun e _ broken => breaks_later same _ _ (Nat.le_of_eq (Nat.zero_add _)) e broken) fun drawn left known => ?_
          obtain ⟨calls, made, after, length, -⟩ := known
          exact ⟨calls, same.append made, after, Nat.le_of_eq length⟩

theorem choose_from_calls (s : State R) (candidates : List Candidate) (best : Option (Candidate × R)) (budget : Budget)
    (memory : Logged R σ) :
    Ends (chooseFrom planner.recorded s best budget candidates) memory
      (fun _ left => ∃ calls, memory.Calls left budget calls ∧
        calls.length ≤ candidates.length * memory.settings.callsPerAction)
      fun e left => ∃ calls,
        memory.Breaks left budget (candidates.length * memory.settings.callsPerAction) e calls := by
  induction candidates generalizing best budget memory with
  | nil => exact ⟨[], memory.no_calls budget, Nat.zero_le _⟩
  | cons candidate rest ih =>
      have total : (candidate :: rest).length * memory.settings.callsPerAction =
          memory.settings.callsPerAction + rest.length * memory.settings.callsPerAction := by
        rw [List.length_cons, Nat.succ_mul, Nat.add_comm]
      rw [chooseFrom, total]
      refine ends_then _ _ memory (ends_imp _ _ (score_calls planner s candidate budget memory) (fun _ _ => id)
        fun e _ broken => ?_) fun scored next known => ?_
      · obtain ⟨calls, breaks⟩ := broken
        exact ⟨calls, breaks.earlier (Nat.le_add_right _ _)⟩
      · obtain ⟨points, budget'⟩ := scored
        obtain ⟨calls, made, rfl, few⟩ := known
        have onward := ih (better best candidate points) (budget.after calls) next
        rw [made.settings] at onward
        refine ends_imp _ _ onward (fun _ last rest => ?_) fun e _ broken =>
          breaks_later made _ _ (Nat.add_le_add_right few _) e broken
        obtain ⟨more, madeLater, fewLater⟩ := rest
        exact ⟨calls ++ more, made.append madeLater, by rw [List.length_append]; exact Nat.add_le_add few fewLater⟩

section Decisions

variable (memory : Logged R σ) (remaining : Option Nat)

def candidates (calls : List (PlannerCall R)) : Nat :=
  (Plan.firstActions (memory.determinizer.decoded (calls.take memory.settings.initialCalls))).length

def firstBudget : Budget := ⟨remaining, memory.settings.initialCalls * (1 + memory.settings.callsPerAction)⟩

def secondBudget (first : List (PlannerCall R)) : Budget :=
  { (memory.firstBudget remaining).after first with
    callsLeft := memory.candidates first * memory.settings.callsPerAction }

def budgetAfter (calls : List (PlannerCall R)) : Budget :=
  if calls.length < memory.settings.initialCalls then (memory.firstBudget remaining).after calls
  else
    (memory.secondBudget remaining (calls.take memory.settings.initialCalls)).after
      (calls.drop memory.settings.initialCalls)

-- The calls of a decision, each made with its share of what the calls before it left.
structure Decision (left : Logged R σ) (calls : List (PlannerCall R)) : Prop where
  recorded : left.planner.2 = memory.planner.2 ++ calls
  few : calls.length ≤ memory.settings.initialCalls + memory.candidates calls * memory.settings.callsPerAction
  shared : ∀ before call rest, calls = before ++ call :: rest →
    ((memory.budgetAfter remaining before).slice : Except (Error R) (Option Nat)) = .ok call.limit

structure Broken (left : Logged R σ) (e : Error R) (calls : List (PlannerCall R)) : Prop
    extends memory.Decision remaining left calls where
  due : e = .of .noShareOfTime → 0 < (memory.budgetAfter remaining calls).callsLeft ∧
    ((memory.budgetAfter remaining calls).slice : Except (Error R) (Option Nat)) = .error e

def Deciding (act : Act R (Logged R σ) (Option Ground)) (start : Logged R σ) : Prop :=
  Ends act start (fun _ left => ∃ calls, memory.Decision remaining left calls)
    fun e left => ∃ calls, memory.Broken remaining left e calls

theorem candidates_kept (calls more : List (PlannerCall R)) (many : memory.settings.initialCalls ≤ calls.length) :
    memory.candidates (calls ++ more) = memory.candidates calls := by
  rw [candidates, candidates, List.take_append_of_le_length many]

theorem budget_in_second (first second : List (PlannerCall R)) (length : first.length = memory.settings.initialCalls) :
    memory.budgetAfter remaining (first ++ second) = (memory.secondBudget remaining first).after second := by
  have many : ¬(first ++ second).length < memory.settings.initialCalls := by
    rw [List.length_append]
    omega
  rw [budgetAfter, if_neg many, List.take_left' length, List.drop_left' length]

variable {memory remaining} {left : Logged R σ} {first second : List (PlannerCall R)}

theorem first_shared (shared : (memory.firstBudget remaining).Shared first)
    (few : first.length ≤ memory.settings.initialCalls) (before : List (PlannerCall R)) (call : PlannerCall R)
    (rest : List (PlannerCall R)) (split : first = before ++ call :: rest) :
    ((memory.budgetAfter remaining before).slice : Except (Error R) (Option Nat)) = .ok call.limit := by
  have inside : before.length < memory.settings.initialCalls := by
    rw [split, List.length_append, List.length_cons] at few
    omega
  rw [split, Budget.shared_append] at shared
  rw [budgetAfter, if_pos inside]
  exact shared.2.1

theorem first_decides (recorded : left.planner.2 = memory.planner.2 ++ first)
    (shared : (memory.firstBudget remaining).Shared first) (few : first.length ≤ memory.settings.initialCalls) :
    memory.Decision remaining left first where
  recorded := recorded
  few := few.trans (Nat.le_add_right _ _)
  shared := first_shared shared few

theorem both_decide (recorded : left.planner.2 = memory.planner.2 ++ (first ++ second))
    (shared : (memory.firstBudget remaining).Shared first) (length : first.length = memory.settings.initialCalls)
    (sharedLater : (memory.secondBudget remaining first).Shared second)
    (few : second.length ≤ memory.candidates first * memory.settings.callsPerAction) :
    memory.Decision remaining left (first ++ second) where
  recorded := recorded
  few := by
    rw [List.length_append, memory.candidates_kept first second length.ge, length]
    exact Nat.add_le_add_left few _
  shared before call rest split := by
    have later (more : List (PlannerCall R)) (within : second = more ++ call :: rest) :
        ((memory.budgetAfter remaining (first ++ more)).slice : Except (Error R) (Option Nat)) = .ok call.limit := by
      rw [memory.budget_in_second remaining first more length]
      rw [within, Budget.shared_append] at sharedLater
      exact sharedLater.2.1
    obtain ⟨more, rfl, within⟩ | ⟨more, within, others⟩ := List.append_eq_append_iff.mp split
    · exact later more within
    · cases more with
      | nil =>
          obtain rfl : first = before := within.trans (List.append_nil before)
          rw [← List.append_nil first]
          exact later [] others.symm
      | cons next more =>
          obtain ⟨rfl, -⟩ := List.cons.inj others
          exact first_shared shared length.le before call more within

variable (memory remaining)

theorem decide_calls (s : State R) :
    Ends (decide planner.recorded s remaining) memory
      (fun _ left => ∃ calls, memory.Decision remaining left calls ∧ memory.settings.initialCalls ≤ calls.length)
      fun e left => ∃ calls, memory.Broken remaining left e calls := by
  rw [decide]
  simp only [ends_bind, ends_get]
  refine ends_imp _ memory (rollouts_calls planner _ _ (memory.firstBudget remaining) memory)
    (fun drawn next known => ?_) fun e next broken => ?_
  · obtain ⟨plans, budget⟩ := drawn
    obtain ⟨first, made, rfl, length, decoded⟩ := known
    have counted : (Candidate.ofPlans (plans.filterMap id)).length = memory.candidates first := by
      rw [Candidate.of_plans_grouped, List.length_map, decoded, candidates, ← length, List.take_length]
    have second := choose_from_calls planner s (Candidate.ofPlans (plans.filterMap id)) none
      (memory.secondBudget remaining first) next
    rw [counted, made.settings] at second
    rw [counted]
    have recorded (last : Logged R σ) (more : List (PlannerCall R))
        (known : last.planner.2 = next.planner.2 ++ more) :
        last.planner.2 = memory.planner.2 ++ (first ++ more) := by
      rw [known, made.recorded, List.append_assoc]
    refine ends_imp _ next second (fun chosen last known => ?_) fun e last broken => ?_
    · obtain ⟨second, more, few⟩ := known
      have decision (last' : Logged R σ) (same : last'.planner = last.planner) :
          memory.Decision remaining last' (first ++ second) :=
        both_decide (recorded last' second (same ▸ more.recorded)) made.shared length more.shared few
      have many : memory.settings.initialCalls ≤ (first ++ second).length := by
        rw [List.length_append, length]
        exact Nat.le_add_right _ _
      cases chosen with
      | none => exact ⟨_, decision last rfl, many⟩
      | some chosen => exact ⟨_, decision _ rfl, many⟩
    · obtain ⟨second, breaks⟩ := broken
      refine ⟨_, both_decide (recorded last second breaks.recorded) made.shared length breaks.shared breaks.few,
        fun short => ?_⟩
      obtain ⟨due, broken⟩ := breaks.due short
      rw [memory.budget_in_second remaining first second length]
      refine ⟨?_, broken⟩
      rw [Budget.after_calls_left]
      exact Nat.sub_pos_of_lt due
  · obtain ⟨first, breaks⟩ := broken
    refine ⟨first, first_decides breaks.recorded breaks.shared breaks.few, fun short => ?_⟩
    obtain ⟨due, broken⟩ := breaks.due short
    rw [budgetAfter, if_pos due]
    refine ⟨?_, broken⟩
    rw [Budget.after_calls_left]
    exact Nat.sub_pos_of_lt (due.trans_le (Nat.le_mul_of_pos_right _ (Nat.add_pos_left Nat.one_pos _)))

theorem decide_alike (s : State R) (start : Logged R σ) (same : start.planner = memory.planner)
    (determinizer : start.determinizer = memory.determinizer) (settings : start.settings = memory.settings) :
    memory.Deciding remaining (decide planner.recorded s remaining) start := by
  refine ends_imp _ start (decide_calls planner start remaining s) (fun _ left decided => ?_) fun e left broken => ?_
  all_goals
    cases memory
    cases start
    cases same
    cases determinizer
    cases settings
  · obtain ⟨calls, decision, -⟩ := decided
    exact ⟨calls, decision.recorded, decision.few, decision.shared⟩
  · obtain ⟨calls, broken⟩ := broken
    exact ⟨calls, ⟨broken.recorded, broken.few, broken.shared⟩, broken.due⟩

theorem known_decides (s : State R) (p : Problem R) (action : Ground) (start other : Logged R σ)
    (same : start.planner = memory.planner) (act : Act R (Logged R σ) (Option Ground))
    (onward : memory.Deciding remaining act other) :
    memory.Deciding remaining
      (do
        let a ← p.ground action
        if a.isApplicable s then pure (some action)
        else
          set other
          act)
      start := by
  have none : memory.Decision remaining start [] :=
    first_decides (by rw [same, List.append_nil]) trivial (Nat.zero_le _)
  rw [Deciding]
  simp only [ends_bind, ends_lift]
  refine ⟨fun a _ => ?_, fun e refused => ⟨[], none, fun short => ?_⟩⟩
  · split
    · exact ⟨[], none⟩
    · rw [ends_bind, ends_set]
      exact onward
  · exact absurd short ((ground_shareless p action).other refused)

theorem next_unprimed_decides (s : State R) (start : Logged R σ) (same : start.planner = memory.planner)
    (determinizer : start.determinizer = memory.determinizer) (settings : start.settings = memory.settings) :
    memory.Deciding remaining (nextUnprimed planner.recorded s remaining) start := by
  rw [Deciding, nextUnprimed, ends_bind, ends_get]
  dsimp only
  split
  · exact decide_alike planner memory remaining s start same determinizer settings
  · exact known_decides memory remaining s _ _ start _ same _
      (decide_alike planner memory remaining s _ same determinizer settings)

theorem next_decides (s : State R) : memory.Deciding remaining (next planner.recorded s remaining) memory := by
  rw [Deciding, next, ends_bind, ends_get]
  split
  · exact next_unprimed_decides planner memory remaining s memory rfl rfl rfl
  · next action rest _ =>
      rw [ends_bind, ends_set]
      exact known_decides memory remaining s _ _ { memory with primed := rest } _ rfl _
        (next_unprimed_decides planner memory remaining s _ rfl rfl rfl)

end Decisions

end HindsightAgent

end Replan
