import Replan.Agent.Hindsight
import Replan.Number.Duration

set_option autoImplicit false

namespace Replan

inductive PlannerKind where
  | ff | fastDownward
deriving DecidableEq, Inhabited

structure PlannerSettings where
  kind : PlannerKind
  binary : Option String
  args : List String
  search : String
deriving DecidableEq

structure DeterminizerSettings where
  strategy : Strategy Float
  seed : Option Nat

structure SimulatorSettings where
  timeoutSeconds : Option Float
  seed : Option Nat

inductive AgentKind where
  | simple | hindsight
deriving DecidableEq, Inhabited

structure Config where
  agent : AgentKind
  determinizer : DeterminizerSettings
  hindsight : HindsightSettings Float
  planner : PlannerSettings
  simulator : SimulatorSettings

def PlannerKind.keyword : PlannerKind → String
  | ff => "ff"
  | fastDownward => "fast-downward"

def AgentKind.keyword : AgentKind → String
  | simple => "simple"
  | hindsight => "hindsight"

def Criterion.keyword : Criterion → String
  | mostLikely => "mlo"
  | mostAdditions => "mae"

def WheelMethod.keyword : WheelMethod → String
  | shared => "global"
  | perAction => "local"

def PlannerSettings.standard : PlannerSettings := ⟨.ff, none, [], "astar(add())"⟩

def DeterminizerSettings.standard : DeterminizerSettings := ⟨.allOutcome, none⟩

def HindsightSettings.standard : HindsightSettings Float := ⟨15, 15, 500.0⟩

def SimulatorSettings.standard : SimulatorSettings := ⟨none, none⟩

def Config.standard : Config :=
  ⟨.hindsight, .standard, .standard, .standard, .standard⟩

end Replan
