import Replan.Proofs.Agent.Calls
import Replan.Proofs.Agent.HindsightChoice

set_option autoImplicit false

namespace Replan

open Results Act

section Slices

variable {R : Type}

theorem Budget.slice_unlimited (b : Budget) (unlimited : b.pool = none) :
    (b.slice : Except (Error R) (Option Nat)) = .ok none := by
  rw [slice, unlimited]

theorem Budget.slice_limited (b : Budget) (pool : Nat) (limited : b.pool = some pool) (due : 0 < b.callsLeft) :
    (b.slice : Except (Error R) (Option Nat)) =
      if UInt32.size ∣ b.callsLeft then .error (.of .noShareOfTime)
      else .ok (some (pool / (b.callsLeft % UInt32.size))) := by
  rw [slice, limited, shares, Nat.max_eq_left due]
  simp only [Nat.dvd_iff_mod_eq_zero]

end Slices

namespace HindsightAgent

variable {R : Type} [Number R] {σ : Type} (memory : Logged R σ) (remaining : Option Nat)

-- The number of calls that are to come after some calls: all that are planned for both rounds as long as the first one
-- lasts, and those for the candidates that it has brought afterwards.
def callsLeft (calls : List (PlannerCall R)) : Nat :=
  if calls.length < memory.settings.initialCalls then
    memory.settings.initialCalls * (1 + memory.settings.callsPerAction) - calls.length
  else memory.candidates calls * memory.settings.callsPerAction - (calls.length - memory.settings.initialCalls)

theorem candidates_few (calls : List (PlannerCall R)) : memory.candidates calls ≤ memory.settings.initialCalls := by
  refine (Plan.first_actions_few _).trans ((List.length_filterMap_le _ _).trans ?_)
  exact List.length_take_le _ _

theorem budget_calls_left (calls : List (PlannerCall R)) :
    (memory.budgetAfter remaining calls).callsLeft = memory.callsLeft calls := by
  have first : memory.candidates (calls.take memory.settings.initialCalls) = memory.candidates calls := by
    rw [candidates, candidates, List.take_take, Nat.min_self]
  rw [budgetAfter, callsLeft]
  split
  · exact Budget.after_calls_left _ calls
  · rw [Budget.after_calls_left, List.length_drop, secondBudget, first]

theorem budget_pool (calls : List (PlannerCall R)) :
    (memory.budgetAfter remaining calls).pool = remaining.map fun time => time - PlannerCall.wallTimes calls := by
  rw [budgetAfter]
  split
  · exact Budget.after_pool _ calls
  · have spent := PlannerCall.wall_times_append (calls.take memory.settings.initialCalls)
      (calls.drop memory.settings.initialCalls)
    rw [List.take_append_drop] at spent
    rw [Budget.after_pool, secondBudget, Budget.after_pool, Option.map_map, spent]
    simp only [Function.comp_def, Nat.sub_sub]
    rfl

theorem calls_left_planned (calls : List (PlannerCall R)) :
    memory.callsLeft calls ≤ memory.settings.initialCalls * (1 + memory.settings.callsPerAction) := by
  have few := Nat.mul_le_mul_right memory.settings.callsPerAction (memory.candidates_few calls)
  rw [callsLeft, Nat.mul_add, Nat.mul_one]
  split <;> omega

theorem calls_left_decrease (calls : List (PlannerCall R)) (call : PlannerCall R) (due : 0 < memory.callsLeft calls) :
    memory.callsLeft (calls ++ [call]) < memory.callsLeft calls := by
  have few := Nat.mul_le_mul_right memory.settings.callsPerAction (memory.candidates_few (calls ++ [call]))
  rw [callsLeft] at due ⊢
  rw [callsLeft, List.length_append, List.length_singleton]
  by_cases first : calls.length < memory.settings.initialCalls
  · rw [if_pos first, Nat.mul_add, Nat.mul_one] at due ⊢
    split <;> omega
  · rw [if_neg first] at due ⊢
    rw [if_neg (by omega), memory.candidates_kept calls [call] (Nat.le_of_not_lt first)]
    omega

variable {memory remaining} {left : Logged R σ} {calls before rest : List (PlannerCall R)} {call : PlannerCall R}

theorem Decision.due (decision : memory.Decision remaining left calls) (split : calls = before ++ call :: rest) :
    0 < memory.callsLeft before := by
  have few := decision.few
  rw [split, List.length_append, List.length_cons] at few
  rw [callsLeft]
  by_cases first : before.length < memory.settings.initialCalls
  · rw [if_pos first, Nat.mul_add, Nat.mul_one]
    omega
  · rw [memory.candidates_kept before _ (Nat.le_of_not_lt first)] at few
    rw [if_neg first]
    omega

theorem Decision.limit (decision : memory.Decision remaining left calls) (split : calls = before ++ call :: rest) :
    call.limit = remaining.map (fun time =>
      (time - PlannerCall.wallTimes before) / (memory.callsLeft before % UInt32.size)) ∧
    (remaining ≠ none → ¬UInt32.size ∣ memory.callsLeft before) := by
  have due := decision.due split
  have share := decision.shared before call rest split
  rw [← memory.budget_calls_left remaining before] at due ⊢
  have pool := memory.budget_pool remaining before
  cases remaining with
  | none =>
      rw [Budget.slice_unlimited _ pool, Except.ok.injEq] at share
      exact ⟨share.symm, fun limited => absurd rfl limited⟩
  | some time =>
      rw [Budget.slice_limited _ _ pool due] at share
      split at share
      · cases share
      · next odd => exact ⟨(Except.ok.inj share).symm, fun _ => odd⟩

section Growing

variable (memory) (time : Nat)

-- Calls with their shares of some time. No share is smaller than an earlier one, and every call that is still to come
-- can have as much as the last.
structure Growing (calls : List (PlannerCall R)) (slices : List Nat) (last : Nat) : Prop where
  limits : calls.map PlannerCall.limit = slices.map some
  ordered : slices.Pairwise (· ≤ ·)
  between : ∀ slice ∈ slices,
    time / (memory.settings.initialCalls * (1 + memory.settings.callsPerAction)) ≤ slice ∧ slice ≤ last
  least : time / (memory.settings.initialCalls * (1 + memory.settings.callsPerAction)) ≤ last
  affordable : last * memory.callsLeft calls ≤ time - PlannerCall.wallTimes calls
  within : PlannerCall.wallTimes calls ≤ time

theorem growing_start :
    memory.Growing time [] [] (time / (memory.settings.initialCalls * (1 + memory.settings.callsPerAction))) where
  limits := rfl
  ordered := .nil
  between := by simp
  least := Nat.le_refl _
  affordable := (Nat.mul_le_mul_left _ (memory.calls_left_planned [])).trans (Nat.div_mul_le_self _ _)
  within := Nat.zero_le _

variable {memory time} {slices : List Nat} {last : Nat}

theorem Growing.another (growing : memory.Growing time calls slices last) (call : PlannerCall R)
    (due : 0 < memory.callsLeft calls)
    (limit : call.limit = some ((time - PlannerCall.wallTimes calls) / memory.callsLeft calls))
    (prompt : call.report.wallTime ≤ (time - PlannerCall.wallTimes calls) / memory.callsLeft calls) :
    memory.Growing time (calls ++ [call])
      (slices ++ [(time - PlannerCall.wallTimes calls) / memory.callsLeft calls])
      ((time - PlannerCall.wallTimes calls) / memory.callsLeft calls) := by
  have fewer := memory.calls_left_decrease calls call due
  have grows : last ≤ (time - PlannerCall.wallTimes calls) / memory.callsLeft calls :=
    (Nat.le_div_iff_mul_le due).mpr growing.affordable
  have shared := Nat.div_mul_le_self (time - PlannerCall.wallTimes calls) (memory.callsLeft calls)
  have part := Nat.div_le_self (time - PlannerCall.wallTimes calls) (memory.callsLeft calls)
  have spent : PlannerCall.wallTimes (calls ++ [call]) = PlannerCall.wallTimes calls + call.report.wallTime := by
    rw [PlannerCall.wall_times_append]
    rfl
  generalize (time - PlannerCall.wallTimes calls) / memory.callsLeft calls = slice at *
  constructor
  · rw [List.map_append, List.map_append, growing.limits, List.map_singleton, List.map_singleton, limit]
  · refine List.pairwise_append.mpr ⟨growing.ordered, List.pairwise_singleton _ _, fun earlier member later now => ?_⟩
    rw [List.mem_singleton.mp now]
    exact (growing.between earlier member).2.trans grows
  · intro each member
    rcases List.mem_append.mp member with earlier | now
    · exact (growing.between each earlier).imp_right fun below => below.trans grows
    · rw [List.mem_singleton.mp now]
      exact ⟨growing.least.trans grows, Nat.le_refl _⟩
  · exact growing.least.trans grows
  · have others := Nat.mul_le_mul_left slice (Nat.le_pred_of_lt fewer)
    rw [Nat.pred_eq_sub_one, Nat.mul_sub, Nat.mul_one] at others
    rw [spent]
    omega
  · have within := growing.within
    rw [spent]
    omega

theorem growing_shares (calls : List (PlannerCall R))
    (each : ∀ before call rest, calls = before ++ call :: rest → 0 < memory.callsLeft before ∧
      call.limit = some ((time - PlannerCall.wallTimes before) / memory.callsLeft before))
    (prompt : ∀ call ∈ calls, ∀ limit, call.limit = some limit → call.report.wallTime ≤ limit) :
    ∃ slices last, memory.Growing time calls slices last := by
  induction calls using List.reverseRecOn with
  | nil => exact ⟨_, _, memory.growing_start time⟩
  | append_singleton calls call ih =>
      obtain ⟨earlier, now⟩ := List.forall_mem_append.mp prompt
      obtain ⟨slices, last, growing⟩ := ih (fun before call' rest split =>
        each before call' (rest ++ [call]) (by rw [split, List.append_assoc]; rfl)) earlier
      obtain ⟨due, limit⟩ := each calls call [] rfl
      exact ⟨_, _, growing.another call due limit (now call (List.mem_singleton_self call) _ limit)⟩

end Growing

section Words

variable (planner : Planner R σ) (memory) (remaining) (s : State R)

theorem calls_logged :
    ∃ calls, memory.Decision remaining (next planner.recorded s remaining memory).2 calls ∧
      ((next planner.recorded s remaining memory).1 = .error (.of .noShareOfTime) →
        remaining ≠ none ∧ 0 < memory.callsLeft calls ∧ UInt32.size ∣ memory.callsLeft calls) := by
  have made := next_decides planner memory remaining s
  unfold Deciding Ends at made
  generalize next planner.recorded s remaining memory = outcome at *
  obtain ⟨_ | _, left⟩ := outcome
  · obtain ⟨calls, broken⟩ := made
    refine ⟨calls, broken.toDecision, fun short => ?_⟩
    obtain ⟨due, share⟩ := broken.due (Except.error.inj short)
    have pool := memory.budget_pool remaining calls
    cases remaining with
    | none =>
        rw [Budget.slice_unlimited _ pool] at share
        cases share
    | some time =>
        rw [Budget.slice_limited _ _ pool due] at share
        split at share
        · next multiple =>
            rw [budget_calls_left] at due multiple
            exact ⟨Option.some_ne_none time, due, multiple⟩
        · cases share
  · obtain ⟨calls, decision⟩ := made
    exact ⟨calls, decision, by rintro ⟨⟩⟩

/-- Every call gets an even share of what is left, but the number of calls to come is taken as a word of 32 bits. -/
theorem time_is_shared_in_words :
    ∃ calls, (next planner.recorded s remaining memory).2.planner.2 = memory.planner.2 ++ calls ∧
      (∀ before call rest, calls = before ++ call :: rest → 0 < memory.callsLeft before ∧
        (remaining ≠ none → ¬UInt32.size ∣ memory.callsLeft before) ∧
        call.limit = remaining.map fun time =>
          (time - PlannerCall.wallTimes before) / (memory.callsLeft before % UInt32.size)) ∧
      ((next planner.recorded s remaining memory).1 = .error (.of .noShareOfTime) →
        remaining ≠ none ∧ 0 < memory.callsLeft calls ∧ UInt32.size ∣ memory.callsLeft calls) ∧
      (memory.settings.initialCalls * (1 + memory.settings.callsPerAction) < UInt32.size →
        (next planner.recorded s remaining memory).1 ≠ .error (.of .noShareOfTime) ∧
        ∀ before call rest, calls = before ++ call :: rest → call.limit = remaining.map fun time =>
          (time - PlannerCall.wallTimes before) / max (memory.callsLeft before) 1) := by
  obtain ⟨calls, decision, broken⟩ := calls_logged memory remaining planner s
  refine ⟨calls, decision.recorded, fun before call rest split => ?_, broken, fun counted => ⟨fun short => ?_, ?_⟩⟩
  · obtain ⟨limit, odd⟩ := decision.limit split
    exact ⟨decision.due split, odd, limit⟩
  · obtain ⟨-, due, multiple⟩ := broken short
    have few := memory.calls_left_planned calls
    exact absurd (Nat.le_of_dvd due multiple) (by omega)
  · intro before call rest split
    have few := memory.calls_left_planned before
    have due := decision.due split
    rw [(decision.limit split).1, Nat.mod_eq_of_lt (by omega), Nat.max_eq_left due]

theorem no_decision_beyond_words (time k : Nat) (first : k < memory.settings.initialCalls)
    (multiple : UInt32.size ∣ memory.settings.initialCalls * (1 + memory.settings.callsPerAction) - k) :
    ∃ e, (decide planner.recorded s (some time) memory).1 = .error e := by
  have made := decide_calls planner memory (some time) s
  unfold Ends at made
  generalize decide planner.recorded s (some time) memory = outcome at *
  obtain ⟨e | _, left⟩ := outcome
  · exact ⟨e, rfl⟩
  · obtain ⟨calls, decision, many⟩ := made
    have inside : k < calls.length := first.trans_le many
    have split : calls = calls.take k ++ calls[k] :: calls.drop (k + 1) := by
      rw [List.getElem_cons_drop, List.take_append_drop]
    have left : memory.callsLeft (calls.take k) =
        memory.settings.initialCalls * (1 + memory.settings.callsPerAction) - k := by
      rw [callsLeft, List.length_take_of_le inside.le, if_pos first]
    rw [← left] at multiple
    exact absurd multiple ((decision.limit split).2 (Option.some_ne_none time))

end Words

/-- The calls of a decision share its time. As long as none of them takes more than its share, the shares never
decrease, none is less than an even share of the whole time among all planned calls, and the time is enough for all. -/
theorem time_is_shared_fairly (planner : Planner R σ) (memory : Logged R σ) (s : State R) (time : Nat)
    (counted : memory.settings.initialCalls * (1 + memory.settings.callsPerAction) < UInt32.size) :
    ∃ calls, (next planner.recorded s (some time) memory).2.planner.2 = memory.planner.2 ++ calls ∧
      (∀ before, before <+: calls →
        (memory.budgetAfter (some time) before).pool = some (time - PlannerCall.wallTimes before)) ∧
      (∀ before call rest, calls = before ++ call :: rest →
        ((memory.budgetAfter (some time) before).slice : Except (Error R) (Option Nat)) = .ok call.limit) ∧
      ((∀ call ∈ calls, ∀ limit, call.limit = some limit → call.report.wallTime ≤ limit) →
        ∃ slices : List Nat, calls.map PlannerCall.limit = slices.map some ∧ slices.Pairwise (· ≤ ·) ∧
          (∀ slice ∈ slices,
            time / (memory.settings.initialCalls * (1 + memory.settings.callsPerAction)) ≤ slice) ∧
          PlannerCall.wallTimes calls ≤ time) := by
  obtain ⟨calls, decision, -⟩ := calls_logged memory (some time) planner s
  refine ⟨calls, decision.recorded, fun before _ => memory.budget_pool (some time) before, decision.shared,
    fun prompt => ?_⟩
  have each (before : List (PlannerCall R)) (call : PlannerCall R) (rest : List (PlannerCall R))
      (split : calls = before ++ call :: rest) : 0 < memory.callsLeft before ∧
        call.limit = some ((time - PlannerCall.wallTimes before) / memory.callsLeft before) := by
    have few := memory.calls_left_planned before
    refine ⟨decision.due split, ?_⟩
    rw [(decision.limit split).1, Option.map_some, Nat.mod_eq_of_lt (by omega)]
  obtain ⟨slices, last, growing⟩ := growing_shares calls each prompt
  exact ⟨slices, growing.limits, growing.ordered, fun slice member => (growing.between slice member).1, growing.within⟩

theorem time_is_shared_fairly_coin :
    let planner : Planner Float (List PlanReport) := .scripted fun _ => none
    ∃ (memory : Logged Float (List PlanReport)) (calls : List (PlannerCall Float)) (slices : List Nat),
      ofProblem fairCoin (Determinizer.ofDice .allOutcome (Dice.always Number.zero)) (eightAttempts, [])
        ⟨4, 2, Number.ofNat 5⟩ (Dice.always Number.zero) = .ok memory ∧
      4 * (1 + 2) < UInt32.size ∧
      (next planner.recorded fairCoin.initialState (some 1000) memory).2.planner.2 = memory.planner.2 ++ calls ∧
      calls.length = 6 ∧ (memory.budgetAfter (some 1000) calls).pool = some (1000 - 60) ∧
      calls.map PlannerCall.limit = slices.map some ∧ slices.Pairwise (· ≤ ·) ∧ (∀ slice ∈ slices, 83 ≤ slice) ∧
      PlannerCall.wallTimes calls ≤ 1000 := by
  intro planner
  have executes : (do
      let memory ← ofProblem fairCoin (Determinizer.ofDice .allOutcome (Dice.always Number.zero))
        (eightAttempts, ([] : List (PlannerCall Float))) ⟨4, 2, Number.ofNat 5⟩ (Dice.always Number.zero)
      pure ((next planner.recorded fairCoin.initialState (some 1000) memory).2.planner.2.map
        fun call : PlannerCall Float => (call.limit, call.report.wallTime))).toOption =
          some ([83, 90, 98, 107, 240, 316].map fun limit => (some limit, 10)) := by
    decide +kernel
  rw [to_option_iff] at executes
  simp only [bind_ok_iff, pure_ok_iff] at executes
  obtain ⟨memory, made, logged⟩ := executes
  obtain ⟨start, settings, -⟩ := made_undecided _ _ _ _ _ _ made
  obtain ⟨calls, recorded, pools, -, fair⟩ := time_is_shared_fairly planner memory fairCoin.initialState 1000
    (by rw [settings]; decide)
  rw [recorded, start, List.nil_append] at logged
  have count := congrArg List.length logged
  have spent := congrArg (fun each => (each.map Prod.snd).sum) logged
  simp only [List.length_map, List.map_map, Function.comp_def] at count spent
  have pool := pools calls List.prefix_rfl
  obtain ⟨slices, limits, ordered, least, within⟩ := fair fun call member limit known => by
    have listed := List.mem_map_of_mem (f := fun call : PlannerCall Float => (call.limit, call.report.wallTime)) member
    rw [logged, known] at listed
    simp only [List.mem_map, Prod.mk.injEq, Option.some.injEq] at listed
    obtain ⟨_, share, rfl, taken⟩ := listed
    have enough : ∀ limit ∈ [83, 90, 98, 107, 240, 316], 10 ≤ limit := by decide
    rw [← taken]
    exact enough _ share
  refine ⟨memory, calls, slices, made, by decide, recorded, count, ?_, limits, ordered, fun slice member => ?_, within⟩
  · rw [pool, PlannerCall.wallTimes, spent]
    rfl
  · have bound := least slice member
    rwa [settings] at bound

/-- With `2 ^ 32` calls to come there is no share of the time at all, and with two more than twice as many the time is
shared as if there were only two. -/
theorem sharing_fails_beyond_words :
    let planner : Planner Float (List PlanReport) := .scripted fun _ => none
    let made (callsPerAction : Nat) : Except (Error Float) (Logged Float (List PlanReport)) :=
      ofProblem fairCoin (Determinizer.ofDice .allOutcome (Dice.always Number.zero))
        ([⟨none, false, 1⟩, ⟨none, false, 2⟩], []) ⟨2, callsPerAction, Number.ofNat 5⟩ (Dice.always Number.zero)
    (∃ memory, made 2147483647 = .ok memory ∧ 2 * (1 + 2147483647) < UInt64.size ∧
      (next planner.recorded fairCoin.initialState (some 30000000000) memory).1 = .error (.of .noShareOfTime)) ∧
    ∃ memory, made 4294967296 = .ok memory ∧ 2 * (1 + 4294967296) < UInt64.size ∧
      (next planner.recorded fairCoin.initialState (some 30000000000) memory).2.planner.2.map PlannerCall.limit =
        [some 15000000000, some 29999999999] ∧ 30000000000 / max (memory.callsLeft []) 1 = 3 := by
  intro planner made
  have executes : (do
      let first ← made 2147483647
      let second ← made 4294967296
      pure ((next planner.recorded fairCoin.initialState (some 30000000000) first).1,
        (next planner.recorded fairCoin.initialState (some 30000000000) second).2.planner.2.map PlannerCall.limit,
        second.callsLeft [])).toOption =
          some (.error (.of .noShareOfTime), [some 15000000000, some 29999999999], 8589934594) := by
    decide +kernel
  rw [to_option_iff] at executes
  simp only [bind_ok_iff, pure_ok_iff, Prod.mk.injEq] at executes
  obtain ⟨first, madeFirst, second, madeSecond, broken, limits, planned⟩ := executes
  exact ⟨⟨first, madeFirst, by decide, broken⟩, second, madeSecond, by decide, limits, by rw [planned]; rfl⟩

end HindsightAgent

end Replan
