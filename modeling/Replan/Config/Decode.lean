import Replan.Config
import Replan.Toml.Document

set_option autoImplicit false

namespace Replan

abbrev Decoder (α : Type) := Toml.Value → Option α

namespace Decoder

variable {α : Type}

def string : Decoder String
  | .string s => some s
  | _ => none

def boolean : Decoder Bool
  | .boolean b => some b
  | _ => none

def float : Decoder Float
  | .float x => some x
  | .integer n =>
      let magnitude := Nearest.ofScientific n.natAbs 0
      some (if n < 0 then -magnitude else magnitude)
  | _ => none

def natural : Decoder Nat
  | .integer n => n.toNat?
  | _ => none

def word : Decoder Nat := fun v => (natural v).filter (· < UInt32.size)

def list (item : Decoder α) : Decoder (List α)
  | .array vs => vs.mapM item
  | _ => none

def optional (item : Decoder α) : Decoder (Option α) := fun v => (item v).map some

def choice (keyword : α → String) (all : List α) (name : String) : Option α :=
  all.find? fun a => keyword a == name

def chosen (keyword : α → String) (all : List α) (isNothing : Toml.Value → Bool) : Decoder α
  | .string s => choice keyword all s
  | .table [(key, v)] => if isNothing v then choice keyword all key else none
  | _ => none

def isEmptyTable : Toml.Value → Bool
  | .table [] => true
  | _ => false

def isEmptyCollection : Toml.Value → Bool
  | .table [] => true
  | .array [] => true
  | _ => false

end Decoder

abbrev Section := Nat → String → Option Toml.Value

namespace Section

def named (fields : List (String × Toml.Value)) : Section := fun _ name =>
  (fields.find? fun field => field.1 == name).map Prod.snd

def positional (values : List Toml.Value) : Section := fun i _ => values[i]?

def of? : Toml.Value → Option Section
  | .table fields => some (named fields)
  | .array values => some (positional values)
  | .moment => some (positional [])
  | _ => none

variable {α : Type}

def get (s : Section) (i : Nat) (name : String) (decode : Decoder α) (standard : α) : Option α :=
  match s i name with
  | none => some standard
  | some v => decode v

def require (s : Section) (i : Nat) (name : String) (decode : Decoder α) : Option α :=
  (s i name).bind decode

end Section

namespace Strategy

def method : Decoder WheelMethod :=
  Decoder.chosen WheelMethod.keyword [.shared, .perAction] Decoder.isEmptyTable

def criterion : Decoder Criterion :=
  Decoder.chosen Criterion.keyword [.mostLikely, .mostAdditions] Decoder.isEmptyTable

def arity? (kind : String) : Option Nat :=
  match kind with
  | "all-outcome" => some 0
  | "single-outcome" => some 1
  | "alpha-cost-likelihood" => some 3
  | "hindsight" => some 3
  | _ => none

def ofSection (kind : String) (s : Section) : Option (Strategy Float) :=
  match kind with
  | "all-outcome" => some .allOutcome
  | "single-outcome" => do
      let criterion ← s.require 0 "criterion" criterion
      pure (.singleOutcome criterion)
  | "alpha-cost-likelihood" => do
      let alpha ← s.require 0 "alpha" Decoder.float
      let base ← s.require 1 "base" Decoder.float
      let round ← s.get 2 "round" (Decoder.optional Decoder.word) none
      pure (.alphaCost ⟨alpha, base, round⟩)
  | "hindsight" => do
      let method ← s.require 0 "method" method
      let wheelSize ← s.require 1 "wheel_size" Decoder.natural
      let transformRewards ← s.require 2 "transform_rewards" Decoder.boolean
      pure (.hindsight method wheelSize transformRewards)
  | _ => none

def decode : Decoder (Strategy Float)
  | .table fields => do
      let kind ← (Section.named fields).require 0 "kind" Decoder.string
      ofSection kind (Section.named fields)
  | .array (.string kind :: values) =>
      if arity? kind = some values.length then ofSection kind (Section.positional values) else none
  | _ => none

end Strategy

namespace Config

def decodeDeterminizer : Decoder DeterminizerSettings := fun v => do
  let s ← Section.of? v
  let strategy ← s.get 0 "strategy" Strategy.decode DeterminizerSettings.standard.strategy
  let seed ← s.get 1 "seed" (Decoder.optional Decoder.natural) none
  pure ⟨strategy, seed⟩

def decodeHindsight : Decoder (HindsightSettings Float) := fun v => do
  let s ← Section.of? v
  let standard := HindsightSettings.standard
  let initialCalls ← s.get 0 "initial_calls" Decoder.natural standard.initialCalls
  let callsPerAction ← s.get 1 "calls_per_pha" Decoder.natural standard.callsPerAction
  let penalty ← s.get 2 "penalty" Decoder.float standard.penalty
  pure ⟨initialCalls, callsPerAction, penalty⟩

def decodePlanner : Decoder PlannerSettings := fun v => do
  let s ← Section.of? v
  let standard := PlannerSettings.standard
  let kinds := Decoder.chosen PlannerKind.keyword [.ff, .fastDownward] Decoder.isEmptyCollection
  let kind ← s.get 0 "kind" kinds standard.kind
  let binary ← s.get 1 "binary" (Decoder.optional Decoder.string) none
  let args ← s.get 2 "args" (Decoder.list Decoder.string) standard.args
  let search ← s.get 3 "search" Decoder.string standard.search
  pure ⟨kind, binary, args, search⟩

def decodeSimulator : Decoder SimulatorSettings := fun v => do
  let s ← Section.of? v
  let timeoutSeconds ← s.get 0 "timeout_secs" (Decoder.optional Decoder.float) none
  let seed ← s.get 1 "seed" (Decoder.optional Decoder.natural) none
  pure ⟨timeoutSeconds, seed⟩

def decode (fields : List (String × Toml.Value)) : Option Config := do
  let s := Section.named fields
  let agents := Decoder.chosen AgentKind.keyword [.simple, .hindsight] Decoder.isEmptyCollection
  let agent ← s.get 0 "agent" agents standard.agent
  let determinizer ← s.get 1 "determinizer" decodeDeterminizer standard.determinizer
  let hindsight ← s.get 2 "hindsight" decodeHindsight standard.hindsight
  let planner ← s.get 3 "planner" decodePlanner standard.planner
  let simulator ← s.get 4 "simulator" decodeSimulator standard.simulator
  pure ⟨agent, determinizer, hindsight, planner, simulator⟩

def parse? (text : String) : Option Config := (Toml.parse? text).bind decode

end Config

end Replan
