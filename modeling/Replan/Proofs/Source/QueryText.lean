import Mathlib.Data.List.TakeWhile
import Replan.Proofs.Source.Alternatives
import Replan.Proofs.Source.Grammar

set_option autoImplicit false

namespace Replan.Source

open Replan.Source.Parser

variable {R α β : Type} {G : RequirementSet} {T : List Char → Prop}

theorem number_misses_paren [Number R] (rest : List Char) : Misses (R := R) number ⟨'(' :: rest, G⟩ := by
  refine number_misses _ fun c first => ?_
  cases first
  decide

theorem takes_arithmetic_op (op : ArithmeticOp) : Takes (R := R) T G arithmeticOp op.symbol.toList (· = op) := by
  intro tail _
  have reads (c : Char) (op : ArithmeticOp) :
      Reads (R := R) (as op (sign c)) ⟨c :: tail, G⟩ ⟨skip tail, G⟩ (· = op) :=
    reads_then_pure (fun _ => op) (sign_reads c tail) fun _ _ => rfl
  have misses (c d : Char) (op : ArithmeticOp) (other : d ≠ c) :
      Misses (R := R) (as op (sign c)) ⟨d :: tail, G⟩ :=
    misses_bind (sign_misses c _ fun same => other (Option.some.inj same))
  cases op with
  | add => exact first_of_here _ (reads '+' .add)
  | sub => exact first_of_later _ (misses '+' '-' .add (by decide)) (first_of_here _ (reads '-' .sub))
  | mul =>
      exact first_of_later _ (misses '+' '*' .add (by decide)) (first_of_later _ (misses '-' '*' .sub (by decide))
        (first_of_here _ (reads '*' .mul)))
  | div =>
      exact first_of_later _ (misses '+' '/' .add (by decide)) (first_of_later _ (misses '-' '/' .sub (by decide))
        (first_of_later _ (misses '*' '/' .mul (by decide)) (reads '/' .div)))

theorem arithmetic_op_misses (rest : List Char) (other : ∀ c ∈ rest.head?, isNameStart c = true) :
    Misses (R := R) arithmeticOp ⟨rest, G⟩ := by
  have misses (c : Char) (op : ArithmeticOp) (noStart : isNameStart c = false) :
      Misses (R := R) (as op (sign c)) ⟨rest, G⟩ := by
    refine misses_bind (sign_misses c rest fun first => ?_)
    rw [other c first] at noStart
    cases noStart
  refine first_of_misses _ (misses '+' .add (by decide)) fun q member => ?_
  simp only [List.mem_cons, List.not_mem_nil, or_false] at member
  rcases member with rfl | rfl | rfl
  · exact misses '-' .sub (by decide)
  · exact misses '*' .mul (by decide)
  · exact misses '/' .div (by decide)

theorem takes_comparison_op (op : Comparison) :
    Takes (R := R) Ended G comparisonOp op.symbol.toList (· = op) := by
  intro tail ended
  have reads (op : Comparison) : Reads (R := R) (as op (keyword op.symbol)) ⟨skip (op.symbol.toList ++ tail), G⟩
      ⟨skip tail, G⟩ (· = op) := by
    refine reads_then_pure (fun _ => op) (takes_keyword op.symbol (by cases op <;> decide)
      (by cases op <;> decide) tail ended) fun _ _ => rfl
  have misses (k w : Comparison) (word : IsWord w.symbol) (other : k.symbol ≠ w.symbol) :
      Misses (R := R) (as k (keyword k.symbol)) ⟨skip (w.symbol.toList ++ tail), G⟩ :=
    misses_bind (keyword_misses_word _ _ tail (by cases k <;> decide) word other ended)
  have greaterEqual : Misses (R := R) (as Comparison.atMost (keyword "<=")) ⟨skip (">=".toList ++ tail), G⟩ := by
    refine misses_bind (keyword_misses _ _ ?_)
    rintro ⟨rest, stripped, -⟩
    cases stripped
  have less : IsWord Comparison.less.symbol := by decide
  have greater : IsWord Comparison.greater.symbol := by decide
  have equal : IsWord Comparison.equal.symbol := by decide
  cases op with
  | atMost => exact first_of_here _ (reads .atMost)
  | atLeast => exact first_of_later _ greaterEqual (first_of_here _ (reads .atLeast))
  | less =>
      exact first_of_later _ (misses .atMost .less less (by decide)) (first_of_later _
        (misses .atLeast .less less (by decide)) (first_of_here _ (reads .less)))
  | greater =>
      exact first_of_later _ (misses .atMost .greater greater (by decide)) (first_of_later _
        (misses .atLeast .greater greater (by decide)) (first_of_later _ (misses .less .greater greater (by decide))
          (first_of_here _ (reads .greater))))
  | equal =>
      exact first_of_later _ (misses .atMost .equal equal (by decide)) (first_of_later _
        (misses .atLeast .equal equal (by decide)) (first_of_later _ (misses .less .equal equal (by decide))
          (first_of_later _ (misses .greater .equal equal (by decide)) (reads .equal))))

theorem binary_text (op left right : String) : ("(" ++ op ++ " " ++ left ++ " " ++ right ++ ")").toList =
    '(' :: ((op.toList ++ (' ' :: left.toList ++ ' ' :: right.toList)) ++ [')']) := by
  simp

theorem takes_binary {β' γ : Type} {p : Parser R α} {q : Parser R β} {r : Parser R β'} {f : α → β → β' → γ}
    {op left right : List Char} {a : α} {x : β} {y : β'} (opTakes : Takes Ended G p op (· = a)) (leftTakes : Takes Ended G q left (· = x))
    (rightTakes : Takes Ended G r right (· = y)) :
    Takes T G (parens do
      let a ← p
      let x ← q
      let y ← r
      pure (f a x y)) ('(' :: ((op ++ (' ' :: left ++ ' ' :: right)) ++ [')'])) (· = f a x y) := by
  refine takes_parens (takes_bind opTakes (fun _ _ => ended_spaced _) fun _ first => ?_)
  refine takes_bind (takes_space leftTakes) (fun _ _ => ended_spaced _) fun _ second => ?_
  refine takes_then_pure _ (takes_fewer (takes_space rightTakes) closing_ended) fun _ third => ?_
  rw [first, second, third]

theorem atom_spelled (a : Atom) :
    a.text.toList = '(' :: ((a.name.toList ++ a.args.flatMap fun t => ' ' :: t.name.toList) ++ [')']) := by
  simp only [Atom.text, Ground.text, Atom.ground, String.toList_append, joined_cons, List.flatMap_map]
  simp

theorem atom_starts (a : Atom) (rest : List Char) :
    ∃ more, skip (a.text.toList ++ rest) = '(' :: (a.name.toList ++ more) ∧ Ended more := by
  refine ⟨a.args.flatMap (fun t => ' ' :: t.name.toList) ++ ')' :: rest, ?_, spaced_items a.args _ rest⟩
  rw [atom_spelled, skip_solid _ _ (paren_solid _), List.cons_append, List.append_assoc, List.append_assoc]
  rfl

theorem atom_solid (a : Atom) : Solid a.text.toList := by
  rw [Atom.text, Ground.text, String.toList_append, String.toList_append]
  exact paren_solid _

theorem name_head (n : String) (isName : IsName n) (rest : List Char) :
    ∀ c ∈ (n.toList ++ rest).head?, isNameStart c = true := by
  obtain ⟨c, first, start⟩ := (Option.any_eq_true _ _).mp isName.1
  rw [List.head?_append, first]
  rintro d ⟨⟩
  exact start

theorem solid_length (text : List Char) (solid : Solid text) : 0 < text.length := by
  obtain ⟨c, first, -⟩ := solid
  cases text with
  | nil => cases first
  | cons d text => exact Nat.succ_pos _

variable [Number R] {finite : R → Prop}

theorem expression_solid (readable : Readable finite) (q : Query R) (expression : q.IsExpression (Opens G) finite) :
    Solid q.text.toList := by
  cases q with
  | constant x => exact (source_reads (G := G) readable x expression).1
  | fluent a => exact atom_solid a
  | arithmetic op left right =>
      rw [Query.text, binary_text]
      exact paren_solid _
  | _ => cases expression

theorem takes_expression_within (readable : Readable finite) (q : Query R)
    (expression : q.IsExpression (Opens G) finite) (depth : Nat) (deep : q.text.toList.length ≤ depth) :
    Takes Ended G (expressionWithin depth) q.text.toList (· = q.asRead) := by
  have positive := solid_length _ (expression_solid readable q expression)
  have noNumber (rest : List Char) : Misses (R := R) (do
      let x ← number
      pure (.constant x : Query R)) ⟨'(' :: rest, G⟩ := misses_bind (number_misses_paren _)
  induction q generalizing depth with
  | constant x =>
      obtain ⟨depth, rfl⟩ := Nat.exists_eq_succ_of_ne_zero (show depth ≠ 0 by omega)
      exact takes_either_first (takes_then_pure _ (source_reads readable x expression).2 fun y same => by rw [same]; rfl)
  | fluent a =>
      obtain ⟨reads, licensed⟩ := expression
      obtain ⟨depth, rfl⟩ := Nat.exists_eq_succ_of_ne_zero (show depth ≠ 0 by omega)
      refine takes_either_second (fun tail _ => ?_) (takes_either_second (fun tail _ => ?_)
        (takes_then_pure _ (takes_requires _ (takes_atom a reads) licensed) fun b same => by rw [same]; rfl))
      · obtain ⟨more, starts, -⟩ := atom_starts a tail
        rw [Query.text, starts]
        exact noNumber _
      · obtain ⟨more, starts, -⟩ := atom_starts a tail
        rw [Query.text, starts]
        refine parens_misses_inside _ (misses_bind (arithmetic_op_misses _ ?_))
        rw [skip_solid _ _ (name_solid a.name reads.1)]
        exact name_head a.name reads.1 more
  | arithmetic op left right leftIH rightIH =>
      obtain ⟨leftExpression, rightExpression⟩ := expression
      obtain ⟨depth, rfl⟩ := Nat.exists_eq_succ_of_ne_zero (show depth ≠ 0 by omega)
      have shape : (Query.arithmetic op left right).text.toList = _ := binary_text op.symbol left.text right.text
      rw [shape] at deep ⊢
      simp only [List.length_cons, List.length_append] at deep
      refine takes_either_second (fun tail _ => ?_) (takes_either_first ?_)
      · rw [skip_solid _ _ (paren_solid _)]
        exact noNumber _
      · exact takes_binary (takes_arithmetic_op op)
          (leftIH leftExpression depth (by omega) (solid_length _ (expression_solid readable left leftExpression)))
          (rightIH rightExpression depth (by omega) (solid_length _ (expression_solid readable right rightExpression)))
  | _ => cases expression

theorem takes_expression (readable : Readable finite) (q : Query R)
    (numeric : q.IsExpression (Opens G) finite) : Takes Ended G expression q.text.toList (· = q.asRead) :=
  takes_by_depth (takes_expression_within readable q numeric) (expression_solid readable q numeric)

theorem query_misses (depth : Nat) (rest : List Char) (other : rest.head? ≠ some '(') :
    Misses (R := R) (queryWithin depth) ⟨rest, G⟩ := by
  have noParens {α : Type} (p : Parser R α) : Misses (parens p) ⟨rest, G⟩ := parens_misses rest other
  cases depth with
  | zero => exact fun c _ => ⟨_, rfl⟩
  | succ depth =>
      refine named_misses _ (first_of_misses _ (misses_bind (misses_bind (sign_misses '(' rest other))) fun q member => ?_)
      simp only [List.mem_cons, List.not_mem_nil, or_false] at member
      rcases member with rfl | rfl | rfl | rfl | rfl | rfl | rfl | rfl | rfl
      · exact noParens _
      · exact noParens _
      · exact noParens _
      · exact noParens _
      · exact misses_bind (noParens _)
      · exact misses_bind (noParens _)
      · exact noParens _
      · exact noParens _
      · exact misses_bind (noParens _)

omit [Number R] in
theorem takes_quantified {body : Parser R α} {w : String} {oneOf : RequirementSet} {text : List Char} {x : α}
    (word : IsWord w) (licensed : Opens G oneOf) (vars : List Term)
    (declares : Declares IsVariable (Opens G) vars) (reads : Takes Ended G body text (· = x)) :
    Takes T G (quantified w oneOf body)
      ('(' :: ((w.toList ++ (' ' :: '(' :: ((Term.listText vars).toList ++ [')']) ++ ' ' :: text)) ++ [')']))
      (· = (Term.spellOut vars, x)) := by
  refine takes_after (takes_requires _ (takes_keyword w word.lower word.solid) licensed) (spaced_more _) (takes_cut ?_)
  refine takes_bind (B := Ended) (takes_space (takes_parens (takes_typed_list variables_words vars declares)))
    (fun _ _ => ended_spaced _) fun entries known => ?_
  refine takes_then_pure _ (takes_fewer (takes_space reads) closing_ended) fun inner same => ?_
  rw [known, same]

omit [Number R] in
theorem evades_query_word {w : String} (word : IsWord w) (k : String) (member : k ∈ Query.words) (other : k ≠ w) :
    Evades R G k w := by
  refine evades_word ?_ word other
  simp only [Query.words, List.mem_cons, List.not_mem_nil, or_false] at member
  rcases member with rfl | rfl | rfl | rfl | rfl | rfl <;> decide

theorem query_solid (q : Query R) (legible : q.Legible (Opens G) finite) : Solid q.text.toList := by
  cases q with
  | fluent | constant | arithmetic => cases legible
  | fact a => exact atom_solid a
  | comparison op left right =>
      rw [Query.text, binary_text]
      exact paren_solid _
  | _ =>
      simp only [Query.text, String.toList_append]
      exact paren_solid _

omit [Number R] in
theorem solid_depth {text : List Char} (solid : Solid text) (depth : Nat) (deep : text.length ≤ depth) :
    ∃ less, depth = less + 1 := by
  have positive := solid_length text solid
  exact Nat.exists_eq_succ_of_ne_zero (by omega)

theorem takes_queries (depth : Nat) (qs : List (Query R)) (solid : ∀ q ∈ qs, Solid q.text.toList)
    (each : ∀ q ∈ qs, Takes Ended G (queryWithin depth) q.text.toList (· = q.asRead)) :
    Takes Closing G (many (queryWithin depth)) (qs.flatMap fun q => ' ' :: q.text.toList)
      (· = qs.map Query.asRead) := by
  refine takes_list _ (fun tail closing => ?_) closing_ended solid each
  rw [closing_skip tail closing]
  refine query_misses depth tail ?_
  rw [closing]
  decide

omit [Number R] in
theorem part_length {γ : Type} (items : List γ) (write : γ → List Char) (x : γ) (member : x ∈ items) :
    (write x).length < (items.flatMap fun x => ' ' :: write x).length := by
  induction items with
  | nil => cases member
  | cons y items ih =>
      rw [List.flatMap_cons, List.length_append, List.length_cons]
      rcases List.mem_cons.mp member with rfl | later
      · omega
      · exact Nat.lt_add_left _ (ih later)

theorem takes_always (depth : Nat) :
    Takes Ended G (queryWithin (depth + 1)) (Query.always : Query R).text.toList (· = (.always : Query R)) := by
  have shape : (Query.always : Query R).text.toList = '(' :: (("and".toList ++ []) ++ [')']) := by simp [Query.text]
  rw [shape]
  refine takes_named _ (takes_either_second (avoids_empty _ (by decide) (by decide)) (takes_either_first ?_))
  refine takes_after (takes_keyword "and" (by decide) (by decide)) spaced_nothing ?_
  refine takes_then_pure _ (takes_cut (takes_queries depth [] (by simp) (by simp))) fun parts none => ?_
  rw [none]
  rfl

theorem list_text (w : String) (parts : List (Query R)) : ("(" ++ w ++ Query.listText parts ++ ")").toList =
    '(' :: ((w.toList ++ parts.flatMap fun q => ' ' :: q.text.toList) ++ [')']) := by
  simp [Query.text_list]

theorem takes_conj (depth : Nat) (parts : List (Query R)) (nonempty : parts ≠ [])
    (inner : Takes Closing G (many (queryWithin depth)) (parts.flatMap fun q => ' ' :: q.text.toList)
      (· = parts.map Query.asRead)) :
    Takes Ended G (queryWithin (depth + 1)) (Query.conj parts).text.toList (· = (Query.conj parts).asRead) := by
  rw [Query.text, show "(and" = "(" ++ "and" from rfl, list_text]
  refine takes_named _ (takes_either_second (avoids_empty _ (by decide) (by decide)) (takes_either_first ?_))
  refine takes_after (takes_keyword "and" (by decide) (by decide)) (spaced_items _ _) ?_
  refine takes_then_pure _ (takes_cut inner) fun found same => ?_
  rw [same, Query.asRead, Query.as_read_list, if_neg (by simpa using nonempty)]

theorem takes_disj (depth : Nat) (parts : List (Query R)) (licensed : Opens G [.disjunctivePreconditions])
    (inner : Takes Closing G (many (queryWithin depth)) (parts.flatMap fun q => ' ' :: q.text.toList)
      (· = parts.map Query.asRead)) :
    Takes Ended G (queryWithin (depth + 1)) (Query.disj parts).text.toList (· = (Query.disj parts).asRead) := by
  have evades := evades_query_word (R := R) (G := G) (w := "or") (by decide)
  rw [Query.text, show "(or" = "(" ++ "or" from rfl, list_text]
  refine takes_named _ (takes_either_second (avoids_empty _ (by decide) (by decide)) (takes_either_second
    (avoids_word (evades "and" (by decide) (by decide)) (spaced_items _ _)) (takes_either_first ?_)))
  refine takes_after (takes_requires _ (takes_keyword "or" (by decide) (by decide)) licensed) (spaced_items _ _) ?_
  refine takes_then_pure _ (takes_cut inner) fun found same => ?_
  rw [same, Query.asRead, Query.as_read_list]

theorem takes_neg (depth : Nat) (body : Query R)
    (inner : Takes Ended G (queryWithin depth) body.text.toList (· = body.asRead)) :
    Takes Ended G (queryWithin (depth + 1)) (Query.neg body).text.toList (· = (Query.neg body).asRead) := by
  have shape : (Query.neg body).text.toList = '(' :: (("not".toList ++ ' ' :: body.text.toList) ++ [')']) := by
    simp [Query.text]
  have evades := evades_query_word (R := R) (G := G) (w := "not") (by decide)
  rw [shape]
  refine takes_named _ (takes_either_second (avoids_empty _ (by decide) (by decide)) (takes_either_second
    (avoids_word (evades "and" (by decide) (by decide)) (spaced_more _)) (takes_either_second
    (avoids_gated (evades "or" (by decide) (by decide)) (spaced_more _)) (takes_either_first ?_))))
  refine takes_after (takes_keyword "not" (by decide) (by decide)) (spaced_more _) ?_
  exact takes_then_pure _ (takes_cut (takes_fewer (takes_space inner) closing_ended)) fun found same => by rw [same]; rfl

theorem takes_imply (depth : Nat) (premise conclusion : Query R) (licensed : Opens G [.disjunctivePreconditions])
    (first : Takes Ended G (queryWithin depth) premise.text.toList (· = premise.asRead))
    (second : Takes Ended G (queryWithin depth) conclusion.text.toList (· = conclusion.asRead)) :
    Takes Ended G (queryWithin (depth + 1)) (Query.imply premise conclusion).text.toList
      (· = (Query.imply premise conclusion).asRead) := by
  have shape : (Query.imply premise conclusion).text.toList =
      '(' :: (("imply".toList ++ (' ' :: premise.text.toList ++ ' ' :: conclusion.text.toList)) ++ [')']) := by
    simp [Query.text]
  have evades := evades_query_word (R := R) (G := G) (w := "imply") (by decide)
  rw [shape]
  refine takes_named _ (takes_either_second (avoids_empty _ (by decide) (by decide)) (takes_either_second
    (avoids_word (evades "and" (by decide) (by decide)) (spaced_more _)) (takes_either_second
    (avoids_gated (evades "or" (by decide) (by decide)) (spaced_more _)) (takes_either_second
    (avoids_word (evades "not" (by decide) (by decide)) (spaced_more _)) (takes_either_first ?_)))))
  refine takes_after (takes_requires _ (takes_keyword "imply" (by decide) (by decide)) licensed) (spaced_more _) ?_
  refine takes_cut (takes_bind (takes_space first) (fun _ _ => ended_spaced _) fun p same => ?_)
  refine takes_then_pure _ (takes_fewer (takes_space second) closing_ended) fun q found => ?_
  rw [same, found, Query.asRead]

theorem quantified_text (w vars body : String) : ("(" ++ w ++ " (" ++ vars ++ ") " ++ body ++ ")").toList =
    '(' :: ((w.toList ++ (' ' :: '(' :: (vars.toList ++ [')']) ++ ' ' :: body.toList)) ++ [')']) := by
  simp

theorem takes_for_all (depth : Nat) (vars : List Term) (body : Query R)
    (licensed : Opens G [.universalPreconditions]) (declares : Declares IsVariable (Opens G) vars)
    (inner : Takes Ended G (queryWithin depth) body.text.toList (· = body.asRead)) :
    Takes Ended G (queryWithin (depth + 1)) (Query.forAll vars body).text.toList
      (· = (Query.forAll vars body).asRead) := by
  have evades := evades_query_word (R := R) (G := G) (w := "forall") (by decide)
  rw [Query.text, show "(forall (" = "(" ++ "forall" ++ " (" from rfl, quantified_text]
  refine takes_named _ (takes_either_second (avoids_empty _ (by decide) (by decide)) (takes_either_second
    (avoids_word (evades "and" (by decide) (by decide)) (spaced_more _)) (takes_either_second
    (avoids_gated (evades "or" (by decide) (by decide)) (spaced_more _)) (takes_either_second
    (avoids_word (evades "not" (by decide) (by decide)) (spaced_more _)) (takes_either_second
    (avoids_gated (evades "imply" (by decide) (by decide)) (spaced_more _)) (takes_either_first ?_))))))
  refine takes_then_pure _ (takes_quantified (by decide) licensed vars declares inner) fun pair same => ?_
  rw [same, Query.asRead]

theorem takes_for_some (depth : Nat) (vars : List Term) (body : Query R)
    (licensed : Opens G [.existentialPreconditions]) (declares : Declares IsVariable (Opens G) vars)
    (inner : Takes Ended G (queryWithin depth) body.text.toList (· = body.asRead)) :
    Takes Ended G (queryWithin (depth + 1)) (Query.forSome vars body).text.toList
      (· = (Query.forSome vars body).asRead) := by
  have evades := evades_query_word (R := R) (G := G) (w := "exists") (by decide)
  rw [Query.text, show "(exists (" = "(" ++ "exists" ++ " (" from rfl, quantified_text]
  refine takes_named _ (takes_either_second (avoids_empty _ (by decide) (by decide)) (takes_either_second
    (avoids_word (evades "and" (by decide) (by decide)) (spaced_more _)) (takes_either_second
    (avoids_gated (evades "or" (by decide) (by decide)) (spaced_more _)) (takes_either_second
    (avoids_word (evades "not" (by decide) (by decide)) (spaced_more _)) (takes_either_second
    (avoids_gated (evades "imply" (by decide) (by decide)) (spaced_more _)) (takes_either_second
    (avoids_bind (avoids_gated (evades "forall" (by decide) (by decide)) (spaced_more _)))
    (takes_either_first ?_)))))))
  refine takes_then_pure _ (takes_quantified (by decide) licensed vars declares inner) fun pair same => ?_
  rw [same, Query.asRead]

def plainQuery : Parser R (Query R) :=
  firstOf
    (parens do
      let op ← comparisonOp
      let left ← expression
      let right ← expression
      pure (.comparison op left right))
    [parens do
      keyword "="
      let left ← term
      let right ← term
      pure (.fact ⟨"=", [left, right]⟩),
    do
      let a ← atom
      pure (.fact a)]

theorem takes_plain {w : String} {body : List Char} {P : Query R → Prop} (depth : Nat) (solid : Solid w.toList)
    (inside : w.toList.head? ≠ some ')') (evades : ∀ k ∈ Query.words, Evades R G k w) (spaced : Spaced body)
    (reads : Takes Ended G plainQuery ('(' :: ((w.toList ++ body) ++ [')'])) P) :
    Takes Ended G (queryWithin (depth + 1)) ('(' :: ((w.toList ++ body) ++ [')'])) P :=
  takes_named _ (takes_either_second (avoids_empty _ solid inside) (takes_either_second
    (avoids_word (evades "and" (by decide)) spaced) (takes_either_second
    (avoids_gated (evades "or" (by decide)) spaced) (takes_either_second
    (avoids_word (evades "not" (by decide)) spaced) (takes_either_second
    (avoids_gated (evades "imply" (by decide)) spaced) (takes_either_second
    (avoids_bind (avoids_gated (evades "forall" (by decide)) spaced)) (takes_either_second
    (avoids_bind (avoids_gated (evades "exists" (by decide)) spaced)) reads)))))))

omit [Number R] in
theorem symbol_evades (op : Comparison) (k : String) (member : k ∈ Query.words) : Evades R G k op.symbol := by
  intro rest _
  have letters : (Query.words.all fun k => k.toList.head?.any fun m =>
      op.symbol.toList.head?.all fun c => m != c.toLower) = true := by cases op <;> decide
  obtain ⟨m, mark, other⟩ := (Option.any_eq_true _ _).mp (List.all_eq_true.mp letters k member)
  have solid : Solid op.symbol.toList := by cases op <;> decide
  rw [skip_solid _ _ solid]
  obtain ⟨c, first, -⟩ := solid
  cases symbol : op.symbol.toList with
  | nil => rw [symbol] at first; cases first
  | cons d more =>
      rw [symbol] at other
      exact keyword_misses_first k m d _ mark (by simpa using other)

theorem takes_comparison (readable : Readable finite) (depth : Nat) (op : Comparison) (left right : Query R)
    (leftNumeric : left.IsExpression (Opens G) finite) (rightNumeric : right.IsExpression (Opens G) finite) :
    Takes Ended G (queryWithin (depth + 1)) (Query.comparison op left right).text.toList
      (· = (Query.comparison op left right).asRead) := by
  rw [Query.text, binary_text]
  refine takes_plain depth (by cases op <;> decide) (by cases op <;> decide) (symbol_evades op) (spaced_more _)
    (takes_either_first ?_)
  exact takes_binary (takes_comparison_op op) (takes_expression readable left leftNumeric)
    (takes_expression readable right rightNumeric)

theorem expression_misses (rest : List Char) (noNumber : Misses (R := R) number ⟨rest, G⟩)
    (noParen : rest.head? ≠ some '(') : Misses (R := R) expression ⟨rest, G⟩ := by
  refine misses_by_depth (first_of_misses _ (misses_bind noNumber) fun q member => ?_)
  simp only [List.mem_cons, List.not_mem_nil, or_false] at member
  rcases member with rfl | rfl
  · exact parens_misses rest noParen
  · exact misses_bind (requires_misses _ (parens_misses rest noParen))

theorem takes_fact (depth : Nat) (a : Atom) (reads : AtomReads a) (plain : a.name ∉ Query.words) :
    Takes Ended G (queryWithin (depth + 1)) (Query.fact a : Query R).text.toList (· = (Query.fact a : Query R)) := by
  have word := name_is_word a.name reads.1
  have symbols (k : String) (unbroken : Unbroken k) (noName : ¬IsName k) : Evades R G k a.name := by
    refine evades_word unbroken word ?_
    rintro rfl
    exact noName reads.1
  have noComparison (rest : List Char) (ended : Ended rest) :
      Misses (R := R) comparisonOp ⟨skip (a.name.toList ++ rest), G⟩ := by
    refine first_of_misses _ (misses_bind (symbols "<=" (by decide) (by decide) rest ended)) fun q member => ?_
    simp only [List.mem_cons, List.not_mem_nil, or_false] at member
    rcases member with rfl | rfl | rfl | rfl
    · exact misses_bind (symbols ">=" (by decide) (by decide) rest ended)
    · exact misses_bind (symbols "<" (by decide) (by decide) rest ended)
    · exact misses_bind (symbols ">" (by decide) (by decide) rest ended)
    · exact misses_bind (symbols "=" (by decide) (by decide) rest ended)
  have spaced := spaced_items a.args fun t => t.name.toList
  have reading := takes_then_pure (Q := (· = (Query.fact a : Query R))) Query.fact
    (takes_atom (R := R) (G := G) (T := Ended) a reads) fun b => congrArg Query.fact
  rw [Query.text]
  rw [atom_spelled] at reading ⊢
  refine takes_plain depth word.solid word.inside (fun k member => ?_) spaced (takes_either_second
    (avoids_parens _ fun rest => misses_bind ?_) (takes_either_second (avoids_word (symbols "=" (by decide) (by decide))
      spaced) reading))
  · refine evades_query_word word k member ?_
    rintro rfl
    exact plain member
  · rw [List.append_assoc]
    exact noComparison _ (spaced rest)

omit [Number R] in
theorem term_head (t : Term) (isTerm : IsTerm t) :
    ∃ c more, t.name.toList = c :: more ∧ (isNameStart c = true ∨ c = '?') := by
  obtain ⟨-, isName | ⟨m, -, named⟩⟩ := isTerm
  · obtain ⟨c, first, start⟩ := (Option.any_eq_true _ _).mp isName.1
    cases letters : t.name.toList with
    | nil => rw [letters] at first; cases first
    | cons d more =>
        rw [letters] at first
        cases first
        exact ⟨c, more, rfl, .inl start⟩
  · exact ⟨'?', m.toList, by rw [named, variable_to_list], .inr rfl⟩

theorem no_number (c : Char) (rest : List Char) (letter : isNameChar c = true ∨ c = '?') (noDigit : c.isDigit = false)
    (noDash : c ≠ '-') : Misses (R := R) expression ⟨c :: rest, G⟩ := by
  have noPoint : c ≠ '.' ∧ c ≠ '(' := by
    constructor
    all_goals
      rintro rfl
      revert letter
      decide
  refine expression_misses _ (number_misses _ fun d first => ?_) fun paren => noPoint.2 (Option.some.inj paren)
  cases first
  exact ⟨noDigit, noDash, noPoint.1⟩

theorem leading_number (n : String) (isName : IsName n) (digit : n.toList.head?.any Char.isDigit = true)
    (rest : List Char) :
    Reads (R := R) expression ⟨n.toList ++ ' ' :: rest, G⟩
      ⟨skip (n.toList.dropWhile Char.isDigit ++ ' ' :: rest), G⟩ (fun _ => True) := by
  have split := List.takeWhile_append_dropWhile (p := Char.isDigit) (l := n.toList)
  have digits : Numeral.Digits ⟨false, n.toList.takeWhile Char.isDigit, none⟩ := by
    refine ⟨?_, fun c member => List.mem_takeWhile_imp member, by simp⟩
    obtain ⟨c, first, isDigit⟩ := (Option.any_eq_true _ _).mp digit
    obtain ⟨more, letters⟩ := List.head?_eq_some_iff.mp first
    rw [letters, List.takeWhile_cons_of_pos isDigit]
    exact List.cons_ne_nil _ _
  have follows : ∀ c ∈ (n.toList.dropWhile Char.isDigit ++ ' ' :: rest).head?, c.isDigit = false ∧ c ≠ '.' ∧ c ≠ '/' := by
    have stopped := List.head?_dropWhile_not Char.isDigit n.toList
    intro c first
    cases left : n.toList.dropWhile Char.isDigit with
    | nil =>
        rw [left] at first
        cases first
        decide
    | cons d more =>
        rw [left] at first stopped
        cases first
        have letter := (isName.2 c (split ▸ List.mem_append_right _ (left ▸ List.mem_cons_self))).1
        refine ⟨stopped, ?_, ?_⟩
        all_goals
          rintro rfl
          revert letter
          decide
  refine reads_by_depth (first_of_here _ (reads_then_pure (P := fun _ => True) _ ?_ fun _ _ => trivial))
  have numeral := number_reads (R := R) (G := G) ⟨false, n.toList.takeWhile Char.isDigit, none⟩ digits
    (n.toList.dropWhile Char.isDigit ++ ' ' :: rest) (fun c first => ⟨(follows c first).1, (follows c first).2.1⟩)
    fun slash => (follows '/' slash).2.2 rfl
  rw [Numeral.text, ← List.append_assoc] at numeral
  simp only [Bool.false_eq_true, if_false, Option.elim_none, List.nil_append, List.append_nil, split] at numeral
  exact reads_weaken numeral fun _ _ => trivial

theorem left_over_misses (left : List Char) (d : Char) (rest : List Char) (letters : ∀ c ∈ left, isNameChar c = true)
    (stopped : ∀ c ∈ left.head?, c.isDigit = false) (next : isNameStart d = true ∨ d = '?')
    (alone : left = [] → d.isDigit = false) (noNegative : ∀ c more, left = '-' :: c :: more → c.isDigit = false) :
    Misses (R := R) expression ⟨skip (left ++ ' ' :: d :: rest), G⟩ := by
  have noDash : d ≠ '-' := by
    rintro rfl
    revert next
    decide
  cases left with
  | nil =>
      have solid : Solid [d] := by
        refine solid_unless (fun c => !(isNameStart c || c == '?')) d [d] rfl ?_ (by decide)
        simpa using fun noStart => next.resolve_left (by rw [noStart]; exact Bool.false_ne_true)
      rw [List.nil_append, skip_space, show d :: rest = [d] ++ rest from rfl, skip_solid _ _ solid]
      exact no_number d rest (next.imp_left (name_start_char d)) (alone rfl) noDash
  | cons c left =>
      have solid : Solid (c :: left) :=
        solid_unless (fun c => !isNameChar c) c _ rfl (by simp [letters c List.mem_cons_self]) (by decide)
      rw [skip_solid _ _ solid, List.cons_append]
      by_cases dash : c = '-'
      · subst dash
        refine expression_misses _ (dash_misses _ fun e follows => ?_) (by simp)
        cases left with
        | nil =>
            cases follows
            decide
        | cons f more =>
            cases follows
            refine ⟨noNegative _ more rfl, ?_⟩
            rintro rfl
            exact absurd (letters '.' (by simp)) (by decide)
      · exact no_number c _ (.inl (letters c List.mem_cons_self)) (stopped c rfl) dash

theorem two_numbers_miss (l r : Term) (left : IsTerm l) (right : IsTerm r) (names : twoNumbers l.name r.name = false)
    (rest : List Char) {γ : Type} {f : Query R → Query R → Parser R γ} :
    Misses (R := R) (do
      let x ← expression
      let y ← expression
      f x y) ⟨l.name.toList ++ ' ' :: (r.name.toList ++ rest), G⟩ := by
  obtain ⟨c, more, letters, start⟩ := term_head l left
  obtain ⟨d, others, rightLetters, rightStart⟩ := term_head r right
  cases isDigit : c.isDigit with
  | false =>
      have noDash : c ≠ '-' := by
        rintro rfl
        revert start
        decide
      rw [letters]
      exact misses_bind (no_number c _ (start.imp_left (name_start_char c)) isDigit noDash)
  | true =>
      have isName : IsName l.name := by
        obtain ⟨-, isName | ⟨m, -, named⟩⟩ := left
        · exact isName
        · rw [named, variable_to_list] at letters
          cases letters
          cases isDigit
      have digit : l.name.toList.head?.any Char.isDigit = true := by rw [letters]; exact isDigit
      refine misses_second (leading_number l.name isName digit _) fun _ _ => misses_bind ?_
      rw [twoNumbers, digit, Bool.true_and] at names
      rw [rightLetters] at names ⊢
      refine left_over_misses _ d _ (fun e member => ?_) (fun e first => ?_) rightStart (fun none => ?_)
        fun e more shape => ?_
      · exact (isName.2 e ((List.dropWhile_sublist _).mem member)).1
      · have stopped := List.head?_dropWhile_not Char.isDigit l.name.toList
        rw [first] at stopped
        exact stopped
      · rw [none] at names
        exact names
      · rw [shape] at names
        exact names

theorem takes_equality (depth : Nat) (l r : Term) (left : IsTerm l) (right : IsTerm r)
    (names : twoNumbers l.name r.name = false) :
    Takes Ended G (queryWithin (depth + 1)) (Query.fact ⟨"=", [l, r]⟩ : Query R).text.toList
      (· = (Query.fact ⟨"=", [l, r]⟩ : Query R)) := by
  have shape : (Query.fact ⟨"=", [l, r]⟩ : Query R).text.toList =
      '(' :: (("=".toList ++ (' ' :: l.name.toList ++ ' ' :: r.name.toList)) ++ [')']) := by
    rw [Query.text, atom_spelled]
    simp
  rw [shape]
  refine takes_plain depth (by decide) (by decide) (symbol_evades .equal) (spaced_more _) (takes_either_second
    (avoids_parens _ fun rest => ?_) (takes_either_first ?_))
  · rw [List.append_assoc]
    refine misses_second (takes_comparison_op .equal _ (ended_spaced _)) fun op _ => ?_
    rw [List.append_assoc, List.cons_append, skip_space, List.cons_append, skip_solid _ _ (term_solid l left)]
    exact two_numbers_miss l r left right names _
  · refine takes_after (takes_keyword "=" (by decide) (by decide)) (spaced_more _) ?_
    refine takes_bind (takes_space (takes_term l left)) (fun _ _ => ended_spaced _) fun x first => ?_
    refine takes_then_pure _ (takes_fewer (takes_space (takes_term r right)) closing_ended) fun y second => ?_
    rw [first, second]

theorem takes_query_within (readable : Readable finite) (q : Query R) (legible : q.Legible (Opens G) finite)
    (depth : Nat) (deep : q.text.toList.length ≤ depth) :
    Takes Ended G (queryWithin depth) q.text.toList (· = q.asRead) := by
  have parts_deep (w : String) (parts : List (Query R)) (less : Nat)
      (deep : ("(" ++ w ++ Query.listText parts ++ ")").toList.length ≤ less + 1) (q : Query R) (member : q ∈ parts) :
      q.text.toList.length ≤ less := by
    have shorter := part_length parts (fun q => q.text.toList) q member
    rw [list_text] at deep
    simp only [List.length_cons, List.length_append] at deep
    omega
  obtain ⟨less, rfl⟩ := solid_depth (query_solid q legible) depth deep
  induction q generalizing less with
  | always => exact takes_always less
  | conj parts ih =>
      obtain ⟨nonempty, each⟩ := legible
      rw [Query.legible_list] at each
      refine takes_conj less parts nonempty (takes_queries less parts (fun q member => query_solid q (each q member))
        fun q member => ?_)
      have bound := parts_deep "and" parts less deep q member
      obtain ⟨lesser, rfl⟩ := solid_depth (query_solid q (each q member)) less bound
      exact ih q member (each q member) lesser bound
  | disj parts ih =>
      obtain ⟨licensed, each⟩ := legible
      rw [Query.legible_list] at each
      refine takes_disj less parts licensed (takes_queries less parts (fun q member => query_solid q (each q member))
        fun q member => ?_)
      have bound := parts_deep "or" parts less deep q member
      obtain ⟨lesser, rfl⟩ := solid_depth (query_solid q (each q member)) less bound
      exact ih q member (each q member) lesser bound
  | neg body ih =>
      have bound : body.text.toList.length ≤ less := by
        simp [Query.text] at deep ⊢
        omega
      obtain ⟨lesser, rfl⟩ := solid_depth (query_solid body legible) less bound
      exact takes_neg _ body (ih legible lesser bound)
  | imply premise conclusion premiseIH conclusionIH =>
      obtain ⟨licensed, first, second⟩ := legible
      have bound : premise.text.toList.length ≤ less ∧ conclusion.text.toList.length ≤ less := by
        simp [Query.text] at deep ⊢
        omega
      obtain ⟨lesser, rfl⟩ := solid_depth (query_solid premise first) less bound.1
      exact takes_imply _ premise conclusion licensed (premiseIH first lesser bound.1)
        (conclusionIH second lesser bound.2)
  | forAll vars body ih =>
      obtain ⟨licensed, declares, inner⟩ := legible
      have bound : body.text.toList.length ≤ less := by
        simp [Query.text] at deep ⊢
        omega
      obtain ⟨lesser, rfl⟩ := solid_depth (query_solid body inner) less bound
      exact takes_for_all _ vars body licensed declares (ih inner lesser bound)
  | forSome vars body ih =>
      obtain ⟨licensed, declares, inner⟩ := legible
      have bound : body.text.toList.length ≤ less := by
        simp [Query.text] at deep ⊢
        omega
      obtain ⟨lesser, rfl⟩ := solid_depth (query_solid body inner) less bound
      exact takes_for_some _ vars body licensed declares (ih inner lesser bound)
  | comparison op left right _ _ => exact takes_comparison readable less op left right legible.1 legible.2
  | fact a =>
      cases legible with
      | atom _ reads plain => exact takes_fact less a reads plain
      | equality l r left right names => exact takes_equality less l r left right names
  | _ => cases legible

theorem takes_query (readable : Readable finite) (q : Query R) (legible : q.Legible (Opens G) finite) :
    Takes Ended G query q.text.toList (· = q.asRead) :=
  takes_by_depth (takes_query_within readable q legible) (query_solid q legible)

end Replan.Source
