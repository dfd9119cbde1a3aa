import Replan.Proofs.Source.RetypedWords

set_option autoImplicit false

namespace Replan.Source

open Replan.Source.Parser

variable {R α γ : Type} {n m : Nat} {view : α → γ} {p q : Parser R α}

theorem agree_as (a : α) {word : Parser R Unit} (agree : Agree n m 1 id word word) :
    Agree n m 1 id (as a word) (as a word) :=
  agree_bind_same 1 agree fun _ => agree_pure rfl

theorem agree_arithmetic_op : Agree (R := R) n m 1 id arithmeticOp arithmeticOp := by
  have op (a : ArithmeticOp) (ch : Char) (isSign : IsSign ch) :
      Agree (R := R) n m 1 id (as a (sign ch)) (as a (sign ch)) := agree_as a (agree_sign ch isSign)
  exact agree_first_of (op _ '+' (by decide))
    (.cons (op _ '-' (by decide)) (.cons (op _ '*' (by decide)) (.cons (op _ '/' (by decide)) .nil)))

theorem agree_choice (a : α) (w : String) (isMark : IsMark w) :
    Agree (R := R) n m 1 id (as a (keyword w)) (as a (keyword w)) :=
  agree_as a (agree_keyword w isMark)

theorem agree_comparison_op : Agree (R := R) n m 1 id comparisonOp comparisonOp :=
  agree_first_of (agree_choice _ "<=" (by decide))
    (.cons (agree_choice _ ">=" (by decide)) (.cons (agree_choice _ "<" (by decide))
      (.cons (agree_choice _ ">" (by decide)) (.cons (agree_choice _ "=" (by decide)) .nil))))

theorem agree_assign_op : Agree (R := R) n m 1 id assignOp assignOp :=
  agree_first_of (agree_choice _ "assign" (by decide))
    (.cons (agree_choice _ "increase" (by decide)) (.cons (agree_choice _ "decrease" (by decide))
      (.cons (agree_choice _ "scale-up" (by decide)) (.cons (agree_choice _ "scale-down" (by decide)) .nil))))

theorem agree_variables : Agree (R := R) n m 1 (List.map Prod.snd) (parens (typedList variableName))
    (parens (typedList variableName)) :=
  agree_parens (agree_typed_list fun _ _ => agree_variable)

theorem agree_quantified (w : String) (isMark : IsMark w) (oneOf : RequirementSet) {body body' : Parser R α}
    (agree : Agree (n - 1) (m - 1) 0 id body body') :
    Agree n m 1 id (quantified w oneOf body) (quantified w oneOf body') := by
  refine agree_form (agree_requires _ (agree_keyword w isMark)) fun _ => agree_cut ?_
  refine agree_next agree_variables fun vars others same => agree_bind_same 0 agree fun inner => agree_pure ?_
  rw [same]

theorem agree_depths {form : Nat → Parser R α}
    (step : ∀ depth depth', Agree depth depth' 1 id (form depth) (form depth') →
      Agree (depth + 1) (depth' + 1) 1 id (form (depth + 1)) (form (depth' + 1)))
    (depth depth' : Nat) : Agree depth depth' 1 id (form depth) (form depth') := by
  induction depth generalizing depth' with
  | zero => exact agree_left_empty
  | succ depth ih =>
      cases depth' with
      | zero => exact agree_right_empty
      | succ depth' => exact step depth depth' (ih depth')

variable [Number R]

theorem agree_expression_within (depth depth' : Nat) :
    Agree (R := R) depth depth' 1 id (expressionWithin depth) (expressionWithin depth') := by
  refine agree_depths (fun depth depth' nested => ?_) depth depth'
  have operand := agree_loose nested
  refine agree_first_of ?_ (.cons ?_ (.cons ?_ .nil))
  · exact agree_bind_same 1 agree_number fun _ => agree_pure rfl
  · exact agree_form agree_arithmetic_op fun _ =>
      agree_bind_same 0 operand fun _ => agree_bind_same 0 operand fun _ => agree_pure rfl
  · exact agree_bind_same 1 (agree_requires _ agree_atom) fun _ => agree_pure rfl

theorem agree_expression : Agree (R := R) n m 1 id expression expression :=
  fun c d near => agree_expression_within _ _ c d (near_here near)

theorem agree_query_within (depth depth' : Nat) :
    Agree (R := R) depth depth' 1 id (queryWithin depth) (queryWithin depth') := by
  refine agree_depths (fun depth depth' nested => ?_) depth depth'
  have part := agree_loose nested
  have parts := agree_cut (agree_many_same nested)
  refine agree_named _ _ (agree_first_of (agree_as _ agree_empty_parens) (.cons ?_ (.cons ?_ (.cons ?_ (.cons ?_
    (.cons ?_ (.cons ?_ (.cons ?_ (.cons ?_ (.cons ?_ .nil))))))))))
  · exact agree_form (agree_keyword "and" (by decide)) fun _ => agree_bind_same 0 parts fun _ => agree_pure rfl
  · exact agree_form (agree_requires _ (agree_keyword "or" (by decide))) fun _ =>
      agree_bind_same 0 parts fun _ => agree_pure rfl
  · exact agree_form (agree_keyword "not" (by decide)) fun _ =>
      agree_bind_same 0 (agree_cut part) fun _ => agree_pure rfl
  · exact agree_form (agree_requires _ (agree_keyword "imply" (by decide))) fun _ =>
      agree_cut (agree_bind_same 0 part fun _ => agree_bind_same 0 part fun _ => agree_pure rfl)
  · exact agree_bind_same 1 (agree_quantified "forall" (by decide) _ part) fun _ => agree_pure rfl
  · exact agree_bind_same 1 (agree_quantified "exists" (by decide) _ part) fun _ => agree_pure rfl
  · exact agree_form agree_comparison_op fun _ =>
      agree_next_same agree_expression fun _ => agree_next_same agree_expression fun _ => agree_pure rfl
  · exact agree_form (agree_keyword "=" (by decide)) fun _ =>
      agree_next_same agree_term fun _ => agree_next_same agree_term fun _ => agree_pure rfl
  · exact agree_bind_same 1 agree_atom fun _ => agree_pure rfl

theorem agree_query : Agree (R := R) n m 1 id query query :=
  fun c d near => agree_query_within _ _ c d (near_here near)

theorem agree_outcome {e e' : Parser R (Effect R)} (agree : Agree n m 0 id e e') :
    Agree n m 1 id (do let x ← number; let made ← e; pure (x, made))
      (do let x ← number; let made ← e'; pure (x, made)) :=
  agree_bind_same 1 agree_number fun _ =>
    agree_bind_same 0 (agree_shorter agree (Nat.sub_le _ _) (Nat.sub_le _ _)) fun _ => agree_pure rfl

theorem agree_distribution (start start' : Cursor) (outcomes : List (R × Effect R)) :
    Agree n m 0 id (distribution start outcomes) (distribution start' outcomes) := by
  intro c d near
  rw [distribution, distribution]
  cases Effect.probabilistic? outcomes with
  | ok e => exact .done rfl (near_here near)
  | error e => exact .fail _ _

theorem agree_effect_within (depth depth' : Nat) :
    Agree (R := R) depth depth' 1 id (effectWithin depth) (effectWithin depth') := by
  refine agree_depths (fun depth depth' nested => ?_) depth depth'
  have part := agree_loose nested
  have outcomes := agree_loose (agree_cut (agree_many_one_same (agree_outcome part)))
  refine agree_named _ _ (agree_first_of (agree_as _ agree_empty_parens) (.cons ?_ (.cons ?_ (.cons ?_ (.cons ?_
    (.cons ?_ (.cons ?_ (.cons ?_ .nil))))))))
  · exact agree_form (agree_keyword "and" (by decide)) fun _ =>
      agree_bind_same 0 (agree_cut (agree_many_same nested)) fun _ => agree_pure rfl
  · exact agree_bind_same 1 (agree_quantified "forall" (by decide) _ part) fun _ => agree_pure rfl
  · exact agree_form (agree_requires _ (agree_keyword "when" (by decide))) fun _ =>
      agree_cut (agree_next_same agree_query fun _ => agree_bind_same 0 part fun _ => agree_pure rfl)
  · refine agree_bind 0 agree_cursor fun start start' _ => agree_bind_same 1 ?_ (agree_distribution start start')
    exact agree_form (agree_requires _ (agree_keyword "probabilistic" (by decide))) fun _ => outcomes
  · exact agree_form (agree_keyword "not" (by decide)) fun _ =>
      agree_next_same (agree_cut agree_atom) fun _ => agree_pure rfl
  · exact agree_form (agree_requires _ agree_assign_op) fun _ => agree_next_same (agree_cut agree_atom) fun _ =>
      agree_next_same (agree_cut agree_expression) fun _ => agree_pure rfl
  · exact agree_bind_same 1 agree_atom fun _ => agree_pure rfl

theorem agree_effect : Agree (R := R) n m 1 id effect effect :=
  fun c d near => agree_effect_within _ _ c d (near_here near)

end Replan.Source
