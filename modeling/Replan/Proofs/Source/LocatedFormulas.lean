import Replan.Proofs.Source.LocatedWords
import Replan.Source.Formula

set_option autoImplicit false

namespace Replan.Source

open Replan.Source.Parser

variable {R α β : Type} {s : Cursor} {p : Parser R α}

theorem points_as (a : α) {mark : Parser R Unit} (points : Points s mark) : Points s (as a mark) := points_then _ points

theorem points_choice (a : α) (w : String) : Points (R := R) s (as a (keyword w)) := points_as a (points_keyword w)

theorem points_arithmetic_op : Points (R := R) s arithmeticOp := by
  have op (a : ArithmeticOp) (ch : Char) : Points (R := R) s (as a (sign ch)) := points_as a (points_sign ch)
  refine points_first_of _ (op _ '+') ?_
  simp only [List.forall_mem_cons, List.not_mem_nil, false_implies, implies_true, and_true]
  exact ⟨op _ '-', op _ '*', op _ '/'⟩

theorem points_comparison_op : Points (R := R) s comparisonOp := by
  refine points_first_of _ (points_choice _ "<=") ?_
  simp only [List.forall_mem_cons, List.not_mem_nil, false_implies, implies_true, and_true]
  exact ⟨points_choice _ ">=", points_choice _ "<", points_choice _ ">", points_choice _ "="⟩

theorem points_assign_op : Points (R := R) s assignOp := by
  refine points_first_of _ (points_choice _ "assign") ?_
  simp only [List.forall_mem_cons, List.not_mem_nil, false_implies, implies_true, and_true]
  exact ⟨points_choice _ "increase", points_choice _ "decrease", points_choice _ "scale-up", points_choice _ "scale-down"⟩

theorem points_form {mark : Parser R β} {body : β → Parser R α} (begins : Points s mark) (inside : ∀ b, Points s (body b)) :
    Points s (parens (mark >>= body)) :=
  points_parens (points_bind begins inside)

theorem points_licensed_word (oneOf : RequirementSet) (w : String) : Points (R := R) s (requires oneOf (keyword w)) :=
  points_requires oneOf (points_keyword w)

theorem lists_variables : Lists (R := R) s termNames (parens (typedList variableName)) :=
  fun before => follows_parens (lists_typed_list lists_variable before)

theorem points_quantified (w : String) (oneOf : RequirementSet) (body : Points s p) : Points s (quantified w oneOf p) := by
  refine points_form (points_licensed_word oneOf w) fun _ => points_cut ?_
  exact points_bind (points_of_lists lists_variables) fun vars => points_then _ body

variable [Number R]

theorem points_expression_within (depth : Nat) : Points (R := R) s (expressionWithin depth) := by
  induction depth with
  | zero => exact fun _ c read => located_missing (Cursor.names_reached read)
  | succ depth operand =>
      refine points_first_of _ (points_then _ points_number) ?_
      simp only [List.forall_mem_cons, List.not_mem_nil, false_implies, implies_true, and_true]
      constructor
      · exact points_form points_arithmetic_op fun _ => points_bind operand fun _ => points_then _ operand
      · exact points_then _ (points_requires _ points_atom)

theorem points_expression : Points (R := R) s expression :=
  fun before c read => points_expression_within _ before c read

theorem points_query_within (depth : Nat) : Points (R := R) s (queryWithin depth) := by
  induction depth with
  | zero => exact fun _ c read => located_missing (Cursor.names_reached read)
  | succ depth part =>
      have parts := points_cut (points_many part)
      refine points_named _ nofun (points_first_of _ (points_as _ points_empty_parens) ?_)
      simp only [List.forall_mem_cons, List.not_mem_nil, false_implies, implies_true, and_true]
      refine ⟨?_, ?_, ?_, ?_, ?_, ?_, ?_, ?_, ?_⟩
      · exact points_form (points_keyword "and") fun _ => points_then _ parts
      · exact points_form (points_licensed_word _ "or") fun _ => points_then _ parts
      · exact points_form (points_keyword "not") fun _ => points_then _ (points_cut part)
      · exact points_form (points_licensed_word _ "imply") fun _ =>
          points_cut (points_bind part fun _ => points_then _ part)
      · exact points_then _ (points_quantified "forall" _ part)
      · exact points_then _ (points_quantified "exists" _ part)
      · exact points_form points_comparison_op fun _ =>
          points_bind points_expression fun _ => points_then _ points_expression
      · exact points_form (points_keyword "=") fun _ => points_bind points_term fun _ => points_then _ points_term
      · exact points_then _ points_atom

theorem points_query : Points (R := R) s query := fun before c read => points_query_within _ before c read

theorem refused_plain (outcomes : List (R × Effect R)) (e : Error R) (refused : Effect.probabilistic? outcomes = .error e)
    (offset : Nat) : e.kind ≠ .unclosedParenthesis offset := by
  intro same
  rw [Effect.probabilistic?] at refused
  cases found : outcomes.find? fun outcome => !Effect.isProbability outcome.1 with
  | some outcome =>
      simp only [found, Except.error.injEq] at refused
      rw [← refused] at same
      cases same
  | none =>
      simp only [found] at refused
      by_cases heavy : Number.lt (Number.one + Number.epsilon) (Effect.mass outcomes) = true
      · rw [if_pos heavy, Except.error.injEq] at refused
        rw [← refused] at same
        cases same
      · rw [if_neg heavy] at refused
        cases refused

theorem points_distribution (outcomes : Parser R (List (R × Effect R))) (points : Points s outcomes) :
    Points s (cursor >>= fun start => outcomes >>= distribution start) := by
  intro before c read
  have reply := points before c read
  show Located s c _ (andThen outcomes (distribution c) c)
  rw [andThen]
  generalize outcomes c = x at reply ⊢
  cases reply with
  | miss seen => exact .miss seen
  | fail seen => exact .fail seen
  | @done listed next onward further =>
      show Located s c _ (distribution c listed next)
      rw [distribution]
      cases made : Effect.probabilistic? listed with
      | ok e => exact .done onward further
      | error e =>
          exact .fail ⟨⟨c, next, Cursor.names_reached read, onward, rfl⟩, fun offset same =>
            absurd same (refused_plain listed e made offset)⟩

theorem points_effect_within (depth : Nat) : Points (R := R) s (effectWithin depth) := by
  induction depth with
  | zero => exact fun _ c read => located_missing (Cursor.names_reached read)
  | succ depth part =>
      refine points_named _ nofun (points_first_of _ (points_as _ points_empty_parens) ?_)
      simp only [List.forall_mem_cons, List.not_mem_nil, false_implies, implies_true, and_true]
      refine ⟨?_, ?_, ?_, ?_, ?_, ?_, ?_⟩
      · exact points_form (points_keyword "and") fun _ => points_then _ (points_cut (points_many part))
      · exact points_then _ (points_quantified "forall" _ part)
      · exact points_form (points_licensed_word _ "when") fun _ =>
          points_cut (points_bind points_query fun _ => points_then _ part)
      · refine points_distribution _ (points_form (points_licensed_word _ "probabilistic") fun _ => ?_)
        exact points_cut (points_many_one (points_bind points_number fun _ => points_then _ part))
      · exact points_form (points_keyword "not") fun _ => points_then _ (points_cut points_atom)
      · exact points_form (points_requires _ points_assign_op) fun _ =>
          points_bind (points_cut points_atom) fun _ => points_then _ (points_cut points_expression)
      · exact points_then _ points_atom

theorem points_effect : Points (R := R) s effect := fun before c read => points_effect_within _ before c read

end Replan.Source
