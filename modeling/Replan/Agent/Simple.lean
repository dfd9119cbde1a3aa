import Replan.Agent
import Replan.Determinizer
import Replan.Planner

set_option autoImplicit false

namespace Replan

structure SimpleAgent (R : Type) (σ : Type) where
  problem : Problem R
  determinizer : Determinizer R
  planner : σ
  vocabulary : List String
  policy : Policy
  invocations : Nat

/-- Actions of a plan by the facts they are taken in; none where the plan takes several. -/
abbrev PlanNotes := List (List Ground × Option Ground)

namespace PlanNotes

def add (key : List Ground) (action : Ground) : PlanNotes → PlanNotes
  | [] => [(key, some action)]
  | entry :: rest =>
      if entry.1 = key then (key, if entry.2 = some action then entry.2 else none) :: rest
      else entry :: add key action rest

def enter (notes : PlanNotes) (policy : Policy) : Policy :=
  notes.foldl
    (fun policy entry =>
      match entry.2 with
      | some action => policy.insert entry.1 action
      | none => policy.erase entry.1)
    policy

end PlanNotes

namespace SimpleAgent

variable {R : Type} [Number R] {σ : Type}

def ofProblem (p : Problem R) (determinizer : Determinizer R) (planner : σ) :
    Except (Error R) (SimpleAgent R σ) := do
  let determinizer ← determinizer.setDomain p.domain
  let vocabulary ← determinizer.baseVocabulary
  pure ⟨p, determinizer, planner, vocabulary, [], 0⟩

def replay (t : Determinizer R) (p : Problem R) (vocabulary : List String) (notes : PlanNotes)
    (s : State R) : Plan → Except (Error R) PlanNotes
  | [] => pure notes
  | step :: rest => do
      let traced ← t.trace step
      let noted := notes.add (s.project vocabulary).key traced.base
      let a ← p.ground step
      match ← a.apply s none with
      | none => pure noted
      | some next => replay t p vocabulary noted next rest

def firstAction (t : Determinizer R) : Plan → Except (Error R) (Option Ground)
  | [] => pure none
  | step :: _ => (t.trace step).map fun traced => some traced.base

def replan (planner : Planner R σ) (s : State R) (remaining : Option Nat) :
    Act R (SimpleAgent R σ) (Option Ground) := do
  let agent ← get
  let (determinized, determinizer) ← agent.determinizer.determinize (agent.problem.anchoredAt s)
  let (report, memory) := planner.solve agent.planner determinized remaining
  set { agent with determinizer, planner := memory, invocations := agent.invocations + 1 }
  match report.plan with
  | none => pure none
  | some plan =>
      let notes ←
        replay determinizer determinized agent.vocabulary [] determinized.initialState plan
      let first ← firstAction determinizer plan
      modify fun agent => { agent with policy := notes.enter agent.policy }
      pure first

def next (planner : Planner R σ) (s : State R) (remaining : Option Nat) :
    Act R (SimpleAgent R σ) (Option Ground) := do
  let agent ← get
  let key := (s.project agent.vocabulary).key
  match agent.policy.lookup? key with
  | none => replan planner s remaining
  | some action =>
      let a ← agent.problem.ground action
      if a.isApplicable s then pure (some action)
      else
        set { agent with policy := agent.policy.erase key }
        replan planner s remaining

def agent (planner : Planner R σ) : Agent R (SimpleAgent R σ) where
  problem := problem
  invocations := invocations
  next := next planner

end SimpleAgent

end Replan
