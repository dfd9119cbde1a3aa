import Replan.Action
import Replan.Agent
import Replan.Agent.Hindsight
import Replan.Agent.Simple
import Replan.CommandLine
import Replan.Config
import Replan.Config.Decode
import Replan.Determinize.AllOutcome
import Replan.Determinize.AlphaCost
import Replan.Determinize.Hindsight
import Replan.Determinize.SingleOutcome
import Replan.Determinize.Variant
import Replan.Determinizer
import Replan.Domain
import Replan.Effect
import Replan.Effect.Costs
import Replan.Effect.Expand
import Replan.Effect.Simplify
import Replan.Effect.Text
import Replan.Error
import Replan.Goal
import Replan.Hierarchy
import Replan.Main
import Replan.Number
import Replan.Number.Decimal
import Replan.Number.Duration
import Replan.Number.Nearest
import Replan.Number.Numeral
import Replan.Number.Shortest
import Replan.Output.FastDownward
import Replan.Output.FastForward
import Replan.Output.Line
import Replan.Plan
import Replan.Planner
import Replan.Planner.BreadthFirst
import Replan.Problem
import Replan.Proofs.Agent.Acts
import Replan.Proofs.Agent.Anchored
import Replan.Proofs.Agent.Assured
import Replan.Proofs.Agent.Calls
import Replan.Proofs.Agent.Candidates
import Replan.Proofs.Agent.HindsightChoice
import Replan.Proofs.Agent.HindsightLegality
import Replan.Proofs.Agent.Keys
import Replan.Proofs.Agent.Legality
import Replan.Proofs.Agent.OneCall
import Replan.Proofs.Agent.Policy
import Replan.Proofs.Agent.PolicyUpdate
import Replan.Proofs.Agent.Rollouts
import Replan.Proofs.Agent.Runs
import Replan.Proofs.Agent.SharedTime
import Replan.Proofs.Agreement
import Replan.Proofs.Determinize.AllOutcome
import Replan.Proofs.Determinize.BaseActions
import Replan.Proofs.Determinize.Certain
import Replan.Proofs.Determinize.Chances
import Replan.Proofs.Determinize.Classical
import Replan.Proofs.Determinize.Decoding
import Replan.Proofs.Determinize.Determinizable
import Replan.Proofs.Determinize.Naming
import Replan.Proofs.Determinize.Preprocess
import Replan.Proofs.Determinize.Priced
import Replan.Proofs.Determinize.Prices
import Replan.Proofs.Determinize.Projection
import Replan.Proofs.Determinize.Pruning
import Replan.Proofs.Determinize.Sampling
import Replan.Proofs.Determinize.Traces
import Replan.Proofs.Determinize.Turning
import Replan.Proofs.Determinize.Variant
import Replan.Proofs.Determinize.Wheel
import Replan.Proofs.Determinize.WheelPlans
import Replan.Proofs.Determinize.WheelRuns
import Replan.Proofs.Effect.Application
import Replan.Proofs.Effect.ExpandedMass
import Replan.Proofs.Effect.Expansion
import Replan.Proofs.Effect.Gathering
import Replan.Proofs.Effect.IndependentChoices
import Replan.Proofs.Effect.Meaning
import Replan.Proofs.Effect.Nesting
import Replan.Proofs.Effect.NormalForm
import Replan.Proofs.Effect.Oblivious
import Replan.Proofs.Effect.Parts
import Replan.Proofs.Effect.Resolutions
import Replan.Proofs.Effect.Settling
import Replan.Proofs.Effect.Simultaneous
import Replan.Proofs.Effect.Slack
import Replan.Proofs.Effect.Structure
import Replan.Proofs.Effect.Substitution
import Replan.Proofs.Effect.Throughout
import Replan.Proofs.Effect.Totals
import Replan.Proofs.Effect.Vocabulary
import Replan.Proofs.Effect.Writes
import Replan.Proofs.Grounding
import Replan.Proofs.Hierarchy
import Replan.Proofs.Instances
import Replan.Proofs.Names
import Replan.Proofs.Number.Exact
import Replan.Proofs.Number.RankedDoubles
import Replan.Proofs.Number.Ranking
import Replan.Proofs.Number.Rounding
import Replan.Proofs.Number.Stored
import Replan.Proofs.Number.Zeros
import Replan.Proofs.Output.Line
import Replan.Proofs.Output.Numbers
import Replan.Proofs.Output.ReadBack
import Replan.Proofs.Output.Steps
import Replan.Proofs.Query.FirstOrder
import Replan.Proofs.Query.Meaning
import Replan.Proofs.Query.NormalForm
import Replan.Proofs.Query.Reading
import Replan.Proofs.Query.Structure
import Replan.Proofs.Query.Substitution
import Replan.Proofs.Query.Vocabulary
import Replan.Proofs.Requirement
import Replan.Proofs.Results
import Replan.Proofs.Run
import Replan.Proofs.Simulator
import Replan.Proofs.Sorted
import Replan.Proofs.Source.Alternatives
import Replan.Proofs.Source.Chunks
import Replan.Proofs.Source.ClassicalText
import Replan.Proofs.Source.Declarations
import Replan.Proofs.Source.DeterminizedText
import Replan.Proofs.Source.DomainRoundTrip
import Replan.Proofs.Source.DomainText
import Replan.Proofs.Source.EffectText
import Replan.Proofs.Source.ErrorPlaces
import Replan.Proofs.Source.FileChecks
import Replan.Proofs.Source.Grammar
import Replan.Proofs.Source.Layout
import Replan.Proofs.Source.Lexemes
import Replan.Proofs.Source.Licences
import Replan.Proofs.Source.LocatedFiles
import Replan.Proofs.Source.LocatedFormulas
import Replan.Proofs.Source.LocatedWords
import Replan.Proofs.Source.Locating
import Replan.Proofs.Source.Numerals
import Replan.Proofs.Source.OmittedPreconditions
import Replan.Proofs.Source.ProblemDeclarations
import Replan.Proofs.Source.ProblemRoundTrip
import Replan.Proofs.Source.ProblemText
import Replan.Proofs.Source.QueryText
import Replan.Proofs.Source.ReadDomains
import Replan.Proofs.Source.ReadFormulas
import Replan.Proofs.Source.ReadNames
import Replan.Proofs.Source.ReadNumbers
import Replan.Proofs.Source.ReadProblems
import Replan.Proofs.Source.Reading
import Replan.Proofs.Source.RetypedFiles
import Replan.Proofs.Source.RetypedFormulas
import Replan.Proofs.Source.RetypedWords
import Replan.Proofs.Source.Retyping
import Replan.Proofs.Source.SectionText
import Replan.Proofs.Source.SimplifiedText
import Replan.Proofs.Source.Tautologies
import Replan.Proofs.Source.Unambiguous
import Replan.Proofs.Source.Unchanged
import Replan.Proofs.Source.VariantText
import Replan.Proofs.Source.Words
import Replan.Proofs.Source.Yielding
import Replan.Proofs.State
import Replan.Proofs.StaticParts
import Replan.Proofs.TypedUniverse
import Replan.Proofs.Universe
import Replan.Query
import Replan.Query.Simplify
import Replan.Query.Text
import Replan.Random.ChaCha
import Replan.Random.Dice
import Replan.Random.Seed
import Replan.Requirement
import Replan.Simulator
import Replan.Sorted
import Replan.Source.Checks
import Replan.Source.DomainFile
import Replan.Source.Formula
import Replan.Source.Lexeme
import Replan.Source.Parser
import Replan.Source.ProblemFile
import Replan.Source.Sections
import Replan.State
import Replan.Successor
import Replan.Term
import Replan.Text
import Replan.Toml.Document
import Replan.Toml.Reader
import Replan.Toml.Scalar
import Replan.Toml.Value
import Replan.Universe
