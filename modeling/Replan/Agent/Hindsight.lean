import Replan.Agent
import Replan.Determinizer
import Replan.Planner

set_option autoImplicit false

namespace Replan

structure HindsightSettings (R : Type) where
  initialCalls : Nat
  callsPerAction : Nat
  penalty : R
deriving DecidableEq

structure Budget where
  pool : Option Nat
  callsLeft : Nat
deriving DecidableEq

namespace Budget

/-- The number of calls that the pool is shared among, as a 32-bit word. -/
def shares (b : Budget) : Nat := max b.callsLeft 1 % UInt32.size

def slice {R : Type} (b : Budget) : Except (Error R) (Option Nat) :=
  match b.pool with
  | none => .ok none
  | some pool => if b.shares = 0 then .error (.of .noShareOfTime) else .ok (some (pool / b.shares))

def charge (b : Budget) (wallTime : Nat) : Budget :=
  ⟨b.pool.map fun pool => pool - wallTime, b.callsLeft - 1⟩

end Budget

structure Candidate where
  action : Ground
  plans : List Plan
deriving DecidableEq

namespace Candidate

def add (action : Ground) (plan : Plan) : List Candidate → List Candidate
  | [] => [⟨action, [plan]⟩]
  | c :: rest =>
      if c.action = action then { c with plans := c.plans ++ [plan] } :: rest
      else c :: add action plan rest

def ofPlans (plans : List Plan) : List Candidate :=
  plans.foldl
    (fun candidates plan =>
      match plan with
      | [] => candidates
      | action :: _ => add action plan candidates)
    []

end Candidate

structure HindsightAgent (R : Type) (σ : Type) where
  problem : Problem R
  determinizer : Determinizer R
  planner : σ
  settings : HindsightSettings R
  vocabulary : List String
  dice : Dice R
  policy : Policy
  primed : Plan
  invocations : Nat

namespace HindsightAgent

variable {R : Type} [Number R] {σ : Type}

def ofProblem (p : Problem R) (determinizer : Determinizer R) (planner : σ)
    (settings : HindsightSettings R) (dice : Dice R) : Except (Error R) (HindsightAgent R σ) := do
  let determinizer ← determinizer.setDomain p.domain
  let vocabulary ← determinizer.baseVocabulary
  pure ⟨p, determinizer, planner, settings, vocabulary, dice, [], [], 0⟩

def rollout (planner : Planner R σ) (anchored : Problem R) (budget : Budget) :
    Act R (HindsightAgent R σ) (Option Plan × Budget) := do
  let agent ← get
  let (determinized, determinizer) ← agent.determinizer.determinize anchored
  let slice ← (budget.slice : Except (Error R) (Option Nat))
  let (report, memory) := planner.solve agent.planner determinized slice
  set { agent with determinizer, planner := memory, invocations := agent.invocations + 1 }
  let left := budget.charge report.wallTime
  match report.plan with
  | none => pure (none, left)
  | some plan => do
      let (_, base) ← determinizer.tracePlan plan
      pure (some base, left)

def rollouts (planner : Planner R σ) (anchored : Problem R) (budget : Budget) :
    Nat → Act R (HindsightAgent R σ) (List (Option Plan) × Budget)
  | 0 => pure ([], budget)
  | calls + 1 => do
      let (plan, left) ← rollout planner anchored budget
      let (plans, last) ← rollouts planner anchored left calls
      pure (plan :: plans, last)

def reward (penalty : R) : Option Plan → R
  | some plan => -(Number.ofNat plan.length : R)
  | none => -penalty

def mean (penalty : R) (plans : List (Option Plan)) : R :=
  Number.sum (plans.map (reward penalty)) / Number.ofNat (max plans.length 1)

def sampledScore (planner : Planner R σ) (s : State R) (action : Ground) (budget : Budget) :
    Act R (HindsightAgent R σ) (R × Budget) := do
  let agent ← get
  let (sampled, dice) := agent.problem.sample s action agent.dice
  set { agent with dice }
  let successor ← sampled
  if agent.problem.isGoal successor then pure (Number.zero, budget)
  else
    let (plans, left) ← rollouts planner (agent.problem.anchoredAt successor) budget
      agent.settings.callsPerAction
    pure (mean agent.settings.penalty plans, left)

def score (planner : Planner R σ) (s : State R) (candidate : Candidate) (budget : Budget) :
    Act R (HindsightAgent R σ) (R × Budget) := do
  let agent ← get
  if agent.settings.callsPerAction = 0 then
    pure (Number.ofNat candidate.plans.length, budget)
  else sampledScore planner s candidate.action budget

def better (best : Option (Candidate × R)) (candidate : Candidate) (score : R) :
    Option (Candidate × R) :=
  match best with
  | none => some (candidate, score)
  | some (_, top) => if Number.lt top score then some (candidate, score) else best

def chooseFrom (planner : Planner R σ) (s : State R) (best : Option (Candidate × R))
    (budget : Budget) : List Candidate → Act R (HindsightAgent R σ) (Option (Candidate × R))
  | [] => pure best
  | candidate :: rest => do
      let (points, left) ← score planner s candidate budget
      chooseFrom planner s (better best candidate points) left rest

/-- Chooses among the first actions of sampled plans. What the plans of the chosen action have in
common is primed. -/
def decide (planner : Planner R σ) (s : State R) (remaining : Option Nat) :
    Act R (HindsightAgent R σ) (Option Ground) := do
  let agent ← get
  let initialCalls := agent.settings.initialCalls
  let callsPerAction := agent.settings.callsPerAction
  let budget : Budget := ⟨remaining, initialCalls * (1 + callsPerAction)⟩
  let (plans, left) ← rollouts planner (agent.problem.anchoredAt s) budget initialCalls
  let candidates := Candidate.ofPlans (plans.filterMap id)
  let second := { left with callsLeft := candidates.length * callsPerAction }
  match ← chooseFrom planner s none second candidates with
  | none => pure none
  | some (chosen, _) =>
      modify fun agent =>
        { agent with
          primed := (Plan.commonOf chosen.plans).drop 1
          policy := agent.policy.insert (s.project agent.vocabulary).key chosen.action }
      pure (some chosen.action)

def nextUnprimed (planner : Planner R σ) (s : State R) (remaining : Option Nat) :
    Act R (HindsightAgent R σ) (Option Ground) := do
  let agent ← get
  let key := (s.project agent.vocabulary).key
  match agent.policy.lookup? key with
  | none => decide planner s remaining
  | some action =>
      let a ← agent.problem.ground action
      if a.isApplicable s then pure (some action)
      else
        set { agent with policy := agent.policy.erase key }
        decide planner s remaining

def next (planner : Planner R σ) (s : State R) (remaining : Option Nat) :
    Act R (HindsightAgent R σ) (Option Ground) := do
  let agent ← get
  match agent.primed with
  | [] => nextUnprimed planner s remaining
  | action :: rest =>
      set { agent with primed := rest }
      let a ← agent.problem.ground action
      if a.isApplicable s then pure (some action)
      else
        set { agent with primed := [] }
        nextUnprimed planner s remaining

def agent (planner : Planner R σ) : Agent R (HindsightAgent R σ) where
  problem := problem
  invocations := invocations
  next := next planner

end HindsightAgent

end Replan
