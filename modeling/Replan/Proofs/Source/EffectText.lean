import Mathlib.Data.List.Forall2
import Replan.Proofs.Source.QueryText

set_option autoImplicit false

namespace Replan

namespace Effect

variable {R : Type} [Number R]

theorem distribution_as_read [Number.ZerosAlike R] (outcomes : List (R × Effect R))
    (distribution : IsDistribution outcomes) : IsDistribution (asReadOutcomes outcomes) := by
  have alike (x : R) : Number.Alike x (Number.unsigned x) := Number.unsigned_alike x Number.ZerosAlike.zero
  obtain ⟨all, few⟩ := (is_distribution_iff outcomes).mp distribution
  rw [as_read_outcomes, is_distribution_iff]
  constructor
  · intro outcome member
    obtain ⟨before, known, rfl⟩ := List.mem_map.mp member
    have probability := all before known
    rw [isProbability, Bool.and_eq_true] at probability ⊢
    rw [← Number.ZerosAlike.le _ _ _ _ (.inl rfl) (alike before.1),
      ← Number.ZerosAlike.le _ _ _ _ (alike before.1) (.inl rfl)]
    exact probability
  · rw [mass, List.map_map] at *
    rw [← Number.ZerosAlike.lt _ _ _ (Number.sum_alike (outcomes.map Prod.fst) _ ?_)]
    · exact few
    · rw [List.forall₂_map_left_iff, List.forall₂_map_right_iff]
      exact List.forall₂_same.mpr fun outcome _ => alike outcome.1

end Effect

namespace Source

open Replan.Source.Parser

variable {R α : Type} {G : RequirementSet} {T : List Char → Prop}

theorem evades_effect_word {w : String} (word : IsWord w) (k : String) (member : k ∈ Effect.words) (other : k ≠ w) :
    Evades R G k w := by
  refine evades_word ?_ word other
  simp only [Effect.words, List.mem_cons, List.not_mem_nil, or_false] at member
  rcases member with rfl | rfl | rfl | rfl | rfl | rfl | rfl | rfl | rfl | rfl <;> decide

theorem takes_assign_op (op : AssignOp) : Takes (R := R) Ended G assignOp op.keyword.toList (· = op) := by
  have reads (op : AssignOp) : Takes (R := R) Ended G (as op (keyword op.keyword)) op.keyword.toList (· = op) :=
    takes_then_pure (fun _ => op) (takes_keyword op.keyword (by cases op <;> decide) (by cases op <;> decide)) fun _ _ => rfl
  have misses (k op : AssignOp) (other : k.keyword ≠ op.keyword) (tail : List Char) (ended : Ended tail) :
      Misses (R := R) (as k (keyword k.keyword)) ⟨skip (op.keyword.toList ++ tail), G⟩ :=
    misses_bind (keyword_misses_word _ _ tail (by cases k <;> decide) (by cases op <;> decide) other ended)
  cases op with
  | assign => exact takes_either_first (reads .assign)
  | increase => exact takes_either_second (misses .assign .increase (by decide)) (takes_either_first (reads .increase))
  | decrease =>
      exact takes_either_second (misses .assign .decrease (by decide)) (takes_either_second
        (misses .increase .decrease (by decide)) (takes_either_first (reads .decrease)))
  | scaleUp =>
      exact takes_either_second (misses .assign .scaleUp (by decide)) (takes_either_second
        (misses .increase .scaleUp (by decide)) (takes_either_second (misses .decrease .scaleUp (by decide))
          (takes_either_first (reads .scaleUp))))
  | scaleDown =>
      exact takes_either_second (misses .assign .scaleDown (by decide)) (takes_either_second
        (misses .increase .scaleDown (by decide)) (takes_either_second (misses .decrease .scaleDown (by decide))
          (takes_either_second (misses .scaleUp .scaleDown (by decide)) (reads .scaleDown))))

variable [Number R] {finite : R → Prop}

theorem effect_misses (depth : Nat) (rest : List Char) (other : rest.head? ≠ some '(') :
    Misses (R := R) (effectWithin depth) ⟨rest, G⟩ := by
  have noParens {α : Type} (p : Parser R α) : Misses (parens p) ⟨rest, G⟩ := parens_misses rest other
  cases depth with
  | zero => exact fun c _ => ⟨_, rfl⟩
  | succ depth =>
      refine named_misses _ (first_of_misses _ (misses_bind (misses_bind (sign_misses '(' rest other))) fun q member => ?_)
      simp only [List.mem_cons, List.not_mem_nil, or_false] at member
      rcases member with rfl | rfl | rfl | rfl | rfl | rfl | rfl
      · exact noParens _
      · exact misses_bind (noParens _)
      · exact noParens _
      · exact misses_second (cursor_reads _) fun _ _ => misses_bind (noParens _)
      · exact noParens _
      · exact noParens _
      · exact misses_bind (noParens _)

theorem effect_solid (e : Effect R) : Solid e.text.toList := by
  cases e with
  | add fact => exact atom_solid fact
  | _ =>
      simp only [Effect.text, String.toList_append]
      exact paren_solid _

theorem takes_effects (depth : Nat) (es : List (Effect R))
    (each : ∀ e ∈ es, Takes Ended G (effectWithin depth) e.text.toList (· = e.asRead)) :
    Takes Closing G (many (effectWithin depth)) (es.flatMap fun e => ' ' :: e.text.toList)
      (· = es.map Effect.asRead) := by
  refine takes_list _ (fun tail closing => ?_) closing_ended (fun e _ => effect_solid e) each
  rw [closing_skip tail closing]
  refine effect_misses depth tail ?_
  rw [closing]
  decide

theorem takes_skip (depth : Nat) :
    Takes Ended G (effectWithin (depth + 1)) (Effect.skip : Effect R).text.toList (· = (.skip : Effect R)) := by
  have shape : (Effect.skip : Effect R).text.toList = '(' :: (("and".toList ++ []) ++ [')']) := by simp [Effect.text]
  rw [shape]
  refine takes_named _ (takes_either_second (avoids_empty _ (by decide) (by decide)) (takes_either_first ?_))
  refine takes_after (takes_keyword "and" (by decide) (by decide)) spaced_nothing ?_
  refine takes_then_pure _ (takes_cut (takes_effects depth [] (by simp))) fun parts none => ?_
  rw [none]
  rfl

theorem takes_conj_effect (depth : Nat) (parts : List (Effect R)) (nonempty : parts ≠ [])
    (inner : Takes Closing G (many (effectWithin depth)) (parts.flatMap fun e => ' ' :: e.text.toList)
      (· = parts.map Effect.asRead)) :
    Takes Ended G (effectWithin (depth + 1)) (Effect.conj parts).text.toList (· = (Effect.conj parts).asRead) := by
  have shape : (Effect.conj parts).text.toList =
      '(' :: (("and".toList ++ parts.flatMap fun e => ' ' :: e.text.toList) ++ [')']) := by
    simp [Effect.text, Effect.text_list]
  rw [shape]
  refine takes_named _ (takes_either_second (avoids_empty _ (by decide) (by decide)) (takes_either_first ?_))
  refine takes_after (takes_keyword "and" (by decide) (by decide)) (spaced_items _ _) ?_
  refine takes_then_pure _ (takes_cut inner) fun found same => ?_
  rw [same, Effect.asRead, Effect.as_read_list, if_neg (by simpa using nonempty)]

theorem takes_for_all_effect (depth : Nat) (vars : List Term) (body : Effect R)
    (licensed : Opens G [.conditionalEffects]) (declares : Declares IsVariable (Opens G) vars)
    (inner : Takes Ended G (effectWithin depth) body.text.toList (· = body.asRead)) :
    Takes Ended G (effectWithin (depth + 1)) (Effect.forAll vars body).text.toList
      (· = (Effect.forAll vars body).asRead) := by
  have evades := evades_effect_word (R := R) (G := G) (w := "forall") (by decide)
  rw [Effect.text, show "(forall (" = "(" ++ "forall" ++ " (" from rfl, quantified_text]
  refine takes_named _ (takes_either_second (avoids_empty _ (by decide) (by decide)) (takes_either_second
    (avoids_word (evades "and" (by decide) (by decide)) (spaced_more _)) (takes_either_first ?_)))
  refine takes_then_pure _ (takes_quantified (by decide) licensed vars declares inner) fun pair same => ?_
  rw [same, Effect.asRead]

theorem takes_when (depth : Nat) (condition : Query R) (body : Effect R) (licensed : Opens G [.conditionalEffects])
    (first : Takes Ended G query condition.text.toList (· = condition.asRead))
    (second : Takes Ended G (effectWithin depth) body.text.toList (· = body.asRead)) :
    Takes Ended G (effectWithin (depth + 1)) (Effect.when condition body).text.toList
      (· = (Effect.when condition body).asRead) := by
  have shape : (Effect.when condition body).text.toList =
      '(' :: (("when".toList ++ (' ' :: condition.text.toList ++ ' ' :: body.text.toList)) ++ [')']) := by
    simp [Effect.text]
  have evades := evades_effect_word (R := R) (G := G) (w := "when") (by decide)
  rw [shape]
  refine takes_named _ (takes_either_second (avoids_empty _ (by decide) (by decide)) (takes_either_second
    (avoids_word (evades "and" (by decide) (by decide)) (spaced_more _)) (takes_either_second
    (avoids_bind (avoids_gated (evades "forall" (by decide) (by decide)) (spaced_more _))) (takes_either_first ?_))))
  refine takes_after (takes_requires _ (takes_keyword "when" (by decide) (by decide)) licensed) (spaced_more _) ?_
  refine takes_cut (takes_bind (takes_space first) (fun _ _ => ended_spaced _) fun p same => ?_)
  refine takes_then_pure _ (takes_fewer (takes_space second) closing_ended) fun q found => ?_
  rw [same, found, Effect.asRead]

def outcomeText (outcome : R × Effect R) : List Char :=
  (Number.source outcome.1).toList ++ ' ' :: outcome.2.text.toList

theorem takes_outcomes (readable : Readable finite) (depth : Nat) (outcomes : List (R × Effect R))
    (nonempty : outcomes ≠ []) (known : ∀ outcome ∈ outcomes, finite outcome.1)
    (each : ∀ outcome ∈ outcomes, Takes Ended G (effectWithin depth) outcome.2.text.toList (· = outcome.2.asRead)) :
    Takes Closing G
      (many1 do
        let p ← number
        let e ← effectWithin depth
        pure (p, e))
      (outcomes.flatMap fun outcome => ' ' :: outcomeText outcome) (· = Effect.asReadOutcomes outcomes) := by
  have sources (outcome : R × Effect R) (member : outcome ∈ outcomes) :=
    source_reads (G := G) readable outcome.1 (known outcome member)
  refine takes_weaken (takes_many_one (S := fun outcome found =>
    id found = (Number.unsigned outcome.1, outcome.2.asRead)) (fun tail closing => misses_bind ?_) closing_ended
    (fun outcome member => item_spaced _ (solid_append _ _ (sources outcome member).1)) (fun outcome member => ?_)
    nonempty) fun found same => ?_
  · rw [closing_skip tail closing]
    refine number_misses tail fun c first => ?_
    rw [closing] at first
    cases first
    decide
  · refine takes_space (takes_bind (sources outcome member).2 (fun _ _ => ended_spaced _) fun p first => ?_)
    refine takes_then_pure _ (takes_space (each outcome member)) fun e second => ?_
    rw [first, second]
    rfl
  · rw [Effect.as_read_outcomes, ← forall_two_map id _ outcomes found same, List.map_id]

theorem distribution_reads (start : Cursor) (outcomes : List (R × Effect R)) (accepted : Effect.IsDistribution outcomes)
    (place : Place) : Reads (distribution start outcomes) place place (· = Effect.probabilistic outcomes) := by
  intro c same
  refine ⟨.probabilistic outcomes, c, ?_, rfl, same⟩
  rw [distribution, accepted]

theorem takes_probabilistic [Number.ZerosAlike R] (depth : Nat) (outcomes : List (R × Effect R))
    (licensed : Opens G [.probabilisticEffects]) (distribution : Effect.IsDistribution outcomes)
    (inner : Takes Closing G
      (many1 do
        let p ← number
        let e ← effectWithin depth
        pure (p, e))
      (outcomes.flatMap fun outcome => ' ' :: outcomeText outcome) (· = Effect.asReadOutcomes outcomes)) :
    Takes Ended G (effectWithin (depth + 1)) (Effect.probabilistic outcomes).text.toList
      (· = (Effect.probabilistic outcomes).asRead) := by
  have shape : (Effect.probabilistic outcomes).text.toList =
      '(' :: (("probabilistic".toList ++ outcomes.flatMap fun outcome => ' ' :: outcomeText outcome) ++ [')']) := by
    simp [Effect.text, Effect.text_outcomes, outcomeText]
  have evades := evades_effect_word (R := R) (G := G) (w := "probabilistic") (by decide)
  have spaced := spaced_items outcomes outcomeText
  rw [shape]
  refine takes_named _ (takes_either_second (avoids_empty _ (by decide) (by decide)) (takes_either_second
    (avoids_word (evades "and" (by decide) (by decide)) spaced) (takes_either_second
    (avoids_bind (avoids_gated (evades "forall" (by decide) (by decide)) spaced)) (takes_either_second
    (avoids_gated (evades "when" (by decide) (by decide)) spaced) (takes_either_first fun tail ended => ?_)))))
  refine reads_bind (cursor_reads _) fun start _ => reads_bind (m := ⟨skip tail, G⟩)
    (P := (· = Effect.asReadOutcomes outcomes)) ?_ fun found same => ?_
  · exact takes_after (takes_requires _ (takes_keyword "probabilistic" (by decide) (by decide)) licensed) spaced
      (takes_cut inner) tail ended
  rw [same]
  exact distribution_reads start _ (Effect.distribution_as_read outcomes distribution) _

theorem avoids_chance {w : String} {body : List Char} (depth : Nat) (evades : Evades R G "probabilistic" w)
    (spaced : Spaced body) :
    Avoids T G
      (do
        let start ← cursor
        let outcomes ← parens do
          requires [.probabilisticEffects] (keyword "probabilistic")
          cut (many1 do
            let p ← number
            let e ← effectWithin depth
            pure (p, e))
        distribution start outcomes : Parser R (Effect R)) ('(' :: ((w.toList ++ body) ++ [')'])) :=
  fun tail follows => misses_second (cursor_reads _) fun _ _ => misses_bind (avoids_gated evades spaced tail follows)

theorem takes_delete (depth : Nat) (fact : Atom) (reads : AtomReads fact) :
    Takes Ended G (effectWithin (depth + 1)) (Effect.delete fact : Effect R).text.toList
      (· = (Effect.delete fact : Effect R)) := by
  have shape : (Effect.delete fact : Effect R).text.toList = '(' :: (("not".toList ++ ' ' :: fact.text.toList) ++ [')']) := by
    simp [Effect.text]
  have evades := evades_effect_word (R := R) (G := G) (w := "not") (by decide)
  rw [shape]
  refine takes_named _ (takes_either_second (avoids_empty _ (by decide) (by decide)) (takes_either_second
    (avoids_word (evades "and" (by decide) (by decide)) (spaced_more _)) (takes_either_second
    (avoids_bind (avoids_gated (evades "forall" (by decide) (by decide)) (spaced_more _))) (takes_either_second
    (avoids_gated (evades "when" (by decide) (by decide)) (spaced_more _)) (takes_either_second
    (avoids_chance depth (evades "probabilistic" (by decide) (by decide)) (spaced_more _)) (takes_either_first ?_))))))
  refine takes_after (takes_keyword "not" (by decide) (by decide)) (spaced_more _) ?_
  exact takes_then_pure _ (takes_cut (takes_space (takes_atom fact reads))) fun found same => by rw [same]

theorem takes_assign (readable : Readable finite) (depth : Nat) (op : AssignOp) (fluent : Atom) (value : Query R)
    (licensed : Opens G fluentRequirements) (reads : AtomReads fluent)
    (numeric : value.IsExpression (Opens G) finite) :
    Takes Ended G (effectWithin (depth + 1)) (Effect.assign op fluent value).text.toList
      (· = (Effect.assign op fluent value).asRead) := by
  have evades (k : String) (member : k ∈ ["and", "forall", "when", "probabilistic", "not"]) :
      Evades R G k op.keyword := by
    refine evades_effect_word (by cases op <;> decide) k ?_ ?_
    · exact List.mem_of_mem_take (i := 5) member
    · rintro rfl
      revert member
      cases op <;> decide
  rw [Effect.text, binary_text]
  refine takes_named _ (takes_either_second (avoids_empty _ (by cases op <;> decide) (by cases op <;> decide))
    (takes_either_second (avoids_word (evades "and" (by decide)) (spaced_more _)) (takes_either_second
    (avoids_bind (avoids_gated (evades "forall" (by decide)) (spaced_more _))) (takes_either_second
    (avoids_gated (evades "when" (by decide)) (spaced_more _)) (takes_either_second
    (avoids_chance depth (evades "probabilistic" (by decide)) (spaced_more _)) (takes_either_second
    (avoids_word (evades "not" (by decide)) (spaced_more _)) (takes_either_first ?_)))))))
  exact takes_binary (takes_requires _ (takes_assign_op op) licensed) (takes_cut (takes_atom fluent reads))
    (takes_cut (takes_expression readable value numeric))

theorem takes_add (depth : Nat) (fact : Atom) (reads : AtomReads fact) (plain : fact.name ∉ Effect.words) :
    Takes Ended G (effectWithin (depth + 1)) (Effect.add fact : Effect R).text.toList
      (· = (Effect.add fact : Effect R)) := by
  have evades (k : String) (member : k ∈ Effect.words) : Evades R G k fact.name := by
    refine evades_effect_word (name_is_word fact.name reads.1) k member ?_
    rintro rfl
    exact plain member
  have noAssign (rest : List Char) (ended : Ended rest) :
      Misses (R := R) assignOp ⟨skip (fact.name.toList ++ rest), G⟩ := by
    refine first_of_misses _ (misses_bind (evades "assign" (by decide) rest ended)) fun q member => ?_
    simp only [List.mem_cons, List.not_mem_nil, or_false] at member
    rcases member with rfl | rfl | rfl | rfl
    · exact misses_bind (evades "increase" (by decide) rest ended)
    · exact misses_bind (evades "decrease" (by decide) rest ended)
    · exact misses_bind (evades "scale-up" (by decide) rest ended)
    · exact misses_bind (evades "scale-down" (by decide) rest ended)
  have word := name_is_word fact.name reads.1
  have spaced := spaced_items fact.args fun t => t.name.toList
  have reading := takes_then_pure (Q := (· = (Effect.add fact : Effect R))) Effect.add
    (takes_atom (R := R) (G := G) (T := Ended) fact reads) fun b => congrArg Effect.add
  rw [Effect.text]
  rw [atom_spelled] at reading ⊢
  refine takes_named _ (takes_either_second (avoids_empty _ word.solid word.inside) (takes_either_second
    (avoids_word (evades "and" (by decide)) spaced) (takes_either_second
    (avoids_bind (avoids_gated (evades "forall" (by decide)) spaced)) (takes_either_second
    (avoids_gated (evades "when" (by decide)) spaced) (takes_either_second
    (avoids_chance depth (evades "probabilistic" (by decide)) spaced) (takes_either_second
    (avoids_word (evades "not" (by decide)) spaced) (takes_either_second
    (avoids_parens _ fun rest => misses_bind (requires_misses _ ?_)) reading)))))))
  rw [List.append_assoc]
  exact noAssign _ (spaced rest)

theorem takes_effect_within [Number.ZerosAlike R] (readable : Readable finite) (e : Effect R)
    (legible : e.Legible (Opens G) finite) (depth : Nat) (deep : e.text.toList.length ≤ depth) :
    Takes Ended G (effectWithin depth) e.text.toList (· = e.asRead) := by
  obtain ⟨less, rfl⟩ := solid_depth (effect_solid e) depth deep
  induction e generalizing less with
  | skip => exact takes_skip less
  | add fact => exact takes_add less fact legible.1 legible.2
  | delete fact => exact takes_delete less fact legible
  | conj parts ih =>
      obtain ⟨nonempty, each⟩ := legible
      rw [Effect.legible_list] at each
      refine takes_conj_effect less parts nonempty (takes_effects less parts fun e member => ?_)
      have bound : e.text.toList.length ≤ less := by
        have shorter := part_length parts (fun e => e.text.toList) e member
        simp only [Effect.text, String.toList_append, Effect.text_list, List.length_append] at deep
        simp at deep shorter ⊢
        omega
      obtain ⟨lesser, rfl⟩ := solid_depth (effect_solid e) less bound
      exact ih e member (each e member) lesser bound
  | forAll vars body ih =>
      obtain ⟨licensed, declares, inner⟩ := legible
      have bound : body.text.toList.length ≤ less := by
        simp [Effect.text] at deep ⊢
        omega
      obtain ⟨lesser, rfl⟩ := solid_depth (effect_solid body) less bound
      exact takes_for_all_effect _ vars body licensed declares (ih inner lesser bound)
  | when condition body ih =>
      obtain ⟨licensed, first, second⟩ := legible
      have bound : body.text.toList.length ≤ less := by
        simp [Effect.text] at deep ⊢
        omega
      obtain ⟨lesser, rfl⟩ := solid_depth (effect_solid body) less bound
      exact takes_when _ condition body licensed (takes_query readable condition first) (ih second lesser bound)
  | assign op fluent value => exact takes_assign readable less op fluent value legible.1 legible.2.1 legible.2.2
  | probabilistic outcomes ih =>
      obtain ⟨licensed, nonempty, distribution, each⟩ := legible
      rw [Effect.legible_outcomes] at each
      refine takes_probabilistic less outcomes licensed distribution (takes_outcomes readable less outcomes nonempty
        (fun outcome member => (each outcome member).1) fun outcome member => ?_)
      have bound : outcome.2.text.toList.length ≤ less := by
        have shorter := part_length outcomes outcomeText outcome member
        have text : (Effect.outcomesText outcomes).toList = outcomes.flatMap fun outcome => ' ' :: outcomeText outcome :=
          Effect.text_outcomes outcomes
        rw [← text] at shorter
        simp [Effect.text, outcomeText] at deep shorter ⊢
        omega
      obtain ⟨lesser, rfl⟩ := solid_depth (effect_solid outcome.2) less bound
      exact ih outcome member (each outcome member).2 lesser bound

theorem takes_effect [Number.ZerosAlike R] (readable : Readable finite) (e : Effect R)
    (legible : e.Legible (Opens G) finite) : Takes Ended G effect e.text.toList (· = e.asRead) :=
  takes_by_depth (takes_effect_within readable e legible) (effect_solid e)

end Source

end Replan
