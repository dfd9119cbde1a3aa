import Replan.Proofs.Output.FastDownward
import Replan.Proofs.Output.FastForward

set_option autoImplicit false

namespace Replan.Output

/-- Printed plans are read back. The sentence that FF says when nothing need be done is looked for before the plan,
wherever it stands. -/
theorem plans_are_read_back :
    (∀ plan cost out, (∀ step ∈ plan, Named step) → FastDownward.Report plan cost out →
      FastDownward.parse? out = some ⟨plan.map lower, cost, none⟩) ∧
    ∀ plan cost out, (∀ step ∈ plan, Named step) → FastForward.Report plan cost out →
      ¬"The empty plan solves it".toList <:+: out.toList →
        ∃ elapsed, FastForward.parse? out = some ⟨plan.map lower, cost, elapsed⟩ :=
  ⟨FastDownward.parse_report, FastForward.parse_report⟩

def stampedText : String :=
  "Solving...\nSolution found!\n[t=0.01s, 9876 KB] Pick-up B1 b4 (0)\nnoop (51)\n[t=0.02s, 9876 KB] 3 7_x (1)\n" ++
    "[t=0.02s, 9876 KB] Plan cost: 52\nPlan length: 3 step(s).\n"

def timedText : String :=
  "ff: parsing domain file\n\nff: found legal plan as follows\n\nstep    0: PICK-UP A\n        1: 3\n\n" ++
    "time spent:    0.00 seconds instantiating\n"

theorem printed_plans_are_read_back :
    FastDownward.parse? stampedText =
      some ⟨[⟨"pick-up", ["b1", "b4"]⟩, ⟨"noop", []⟩, ⟨"3", ["7_x"]⟩], Number.ofNat 52, none⟩ ∧
    ∃ elapsed, FastForward.parse? timedText = some ⟨[⟨"pick-up", ["a"]⟩, ⟨"3", []⟩], Number.ofNat 2, elapsed⟩ := by
  obtain ⟨down, forward⟩ := plans_are_read_back
  have early : FastDownward.Stamp "[t=0.01s, 9876 KB] " := .inr ⟨"0.01", "9876", _, _, rfl, rfl, rfl⟩
  have late : FastDownward.Stamp "[t=0.02s, 9876 KB] " := .inr ⟨"0.02", "9876", _, _, rfl, rfl, rfl⟩
  have stamped : FastDownward.Report [⟨"Pick-up", ["B1", "b4"]⟩, ⟨"noop", []⟩, ⟨"3", ["7_x"]⟩] (Number.ofNat 52)
      stampedText :=
    .mk ["Solving..."] "Solution found!" _ "[t=0.02s, 9876 KB] " "52" "\nPlan length: 3 step(s).\n"
      ⟨by decide +kernel, by decide +kernel, by decide +kernel⟩
      (.step _ ⟨"Pick-up", ["B1", "b4"]⟩ "0" _ early rfl (.step "" ⟨"noop", []⟩ "51" _ (.inl rfl) rfl
        (.step _ ⟨"3", ["7_x"]⟩ "1" _ late rfl .done)))
      late rfl (by simp)
  have timed : FastForward.Report [⟨"PICK-UP", ["A"]⟩, ⟨"3", []⟩] (Number.ofNat 2) timedText :=
    .mk ["ff: parsing domain file", ""] "ff: found legal plan as follows" _ _ "\n"
      ⟨by decide +kernel, by decide +kernel, by decide +kernel⟩
      (.blank "" nofun (.step "step    " 0 ⟨"PICK-UP", ["A"]⟩ (.inr ⟨[], [' ', ' ', ' ', ' '], by decide, by decide, rfl⟩)
        (.step "        " 1 ⟨"3", []⟩ (.inl (by decide)) (.blank "" nofun .done))))
      (.times "" ":    0.00 seconds instantiating" (by decide) (by decide) (by decide +kernel)) (by simp)
  exact ⟨down _ _ _ (by decide) stamped, forward _ _ _ (by decide) timed (by decide +kernel)⟩

def sentenceText : String :=
  "ff: found legal plan as follows\n\nstep    0: The empty plan solves it\n\nplan cost: 1.000000\n"

/-- A step in these very words is read as no step at all. -/
theorem sentence_hides_the_step :
    Named ⟨"The", ["empty", "plan", "solves", "it"]⟩ ∧
      FastForward.Report [⟨"The", ["empty", "plan", "solves", "it"]⟩] (Number.ofDecimal 1000000 6) sentenceText ∧
      FastForward.parse? sentenceText = some ⟨[], Number.zero, none⟩ ∧
      ∀ cost elapsed,
        FastForward.parse? sentenceText ≠ some ⟨[⟨"the", ["empty", "plan", "solves", "it"]⟩], cost, elapsed⟩ := by
  have nothing : FastForward.parse? sentenceText = some ⟨[], Number.zero, none⟩ := rfl
  refine ⟨by decide, ?_, nothing, fun cost elapsed same => ?_⟩
  · exact .mk [] "ff: found legal plan as follows" _ _ "\n" ⟨nofun, by decide +kernel, by decide +kernel⟩
      (.blank "" nofun (.step "step    " 0 ⟨"The", ["empty", "plan", "solves", "it"]⟩
        (.inr ⟨[], [' ', ' ', ' ', ' '], by decide, by decide, rfl⟩) (.blank "" nofun .done)))
      (.cost "" "1.000000" _ nofun rfl) (by simp)
  · rw [nothing] at same
    cases same

end Replan.Output
