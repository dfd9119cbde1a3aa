import Replan.Proofs.Query.Substitution

set_option autoImplicit false

namespace Replan.Query

section Shape

variable {R : Type}

def children : Query R → List (Query R)
  | arithmetic _ left right => [left, right]
  | comparison _ left right => [left, right]
  | conj parts => parts
  | disj parts => parts
  | neg body => [body]
  | imply premise conclusion => [premise, conclusion]
  | forAll _ body => [body]
  | forSome _ body => [body]
  | _ => []

inductive Inside (p : Query R) : Query R → Prop
  | here : Inside p p
  | deeper (child q : Query R) (member : child ∈ q.children) : Inside p child → Inside p q

structure Conjunct (q : Query R) : Prop where
  nontrivial : q ≠ always
  flat : ∀ parts, q ≠ conj parts

structure Disjunct (q : Query R) : Prop where
  nontrivial : q ≠ always
  flat : ∀ parts, q ≠ disj parts

def Compact : Query R → Prop
  | conj parts => 2 ≤ parts.length ∧ ∀ q ∈ parts, q.Conjunct
  | disj parts => (parts = [] ∨ 2 ≤ parts.length) ∧ ∀ q ∈ parts, q.Disjunct
  | _ => True

theorem always_of_is_always (q : Query R) (isAlways : q.isAlways = true) : q = always := by
  unfold Query.isAlways at isAlways
  split at isAlways
  · rfl
  · cases isAlways

theorem false_of_is_false (q : Query R) (isFalse : q.isFalse = true) : q = falsity := by
  unfold Query.isFalse at isFalse
  split at isFalse
  · rfl
  · cases isFalse

theorem conjunct_cases (q : Query R) : q = always ∨ (∃ parts, q = conj parts) ∨ q.Conjunct := by
  cases q with
  | always => exact .inl rfl
  | conj parts => exact .inr (.inl ⟨parts, rfl⟩)
  | _ => exact .inr (.inr ⟨nofun, nofun⟩)

theorem disjunct_cases (q : Query R) : q = always ∨ (∃ parts, q = disj parts) ∨ q.Disjunct := by
  cases q with
  | always => exact .inl rfl
  | disj parts => exact .inr (.inl ⟨parts, rfl⟩)
  | _ => exact .inr (.inr ⟨nofun, nofun⟩)

theorem conjuncts_single (q : Query R) (conjunct : q.Conjunct) : conjuncts q = [q] := by
  cases q with
  | always => exact absurd rfl conjunct.nontrivial
  | conj parts => exact absurd rfl (conjunct.flat parts)
  | _ => rfl

theorem disjuncts_single (q : Query R) (disjunct : q.Disjunct) : disjuncts q = [q] := by
  cases q with
  | disj parts => exact absurd rfl (disjunct.flat parts)
  | _ => rfl

theorem flatten_single {α : Type} (split : α → List α) (parts : List α) (each : ∀ q ∈ parts, split q = [q]) :
    parts.flatMap split = parts := by
  induction parts with
  | nil => rfl
  | cons q rest ih =>
      obtain ⟨first, others⟩ := List.forall_mem_cons.mp each
      rw [List.flatMap_cons, first, ih others, List.singleton_append]

theorem two_or_more {α : Type} (parts : List α) (nonempty : parts ≠ []) (several : ∀ q, parts ≠ [q]) :
    2 ≤ parts.length := by
  obtain _ | ⟨p, _ | ⟨q, rest⟩⟩ := parts
  · exact absurd rfl nonempty
  · exact absurd rfl (several p)
  · exact Nat.le_add_left 2 rest.length

theorem conjoin_flat (parts : List (Query R)) (several : 2 ≤ parts.length)
    (each : ∀ q ∈ parts, q.Conjunct ∧ q ≠ falsity) : conjoin parts = conj parts := by
  have consistent : parts.any isFalse = false :=
    List.any_eq_false.mpr fun q member isFalse => (each q member).2 (false_of_is_false q isFalse)
  have flat := flatten_single conjuncts parts fun q member => conjuncts_single q (each q member).1
  unfold conjoin
  rw [consistent, flat]
  obtain _ | ⟨p, _ | ⟨q, rest⟩⟩ := parts
  · cases several
  · exact absurd several (Nat.lt_irrefl 1)
  · rfl

theorem disjoin_flat (parts : List (Query R)) (several : parts.length ≠ 1) (each : ∀ q ∈ parts, q.Disjunct) :
    disjoin parts = disj parts := by
  have contingent : parts.any isAlways = false :=
    List.any_eq_false.mpr fun q member isAlways => (each q member).nontrivial (always_of_is_always q isAlways)
  have flat := flatten_single disjuncts parts fun q member => disjuncts_single q (each q member)
  unfold disjoin
  rw [contingent, flat]
  obtain _ | ⟨p, _ | ⟨q, rest⟩⟩ := parts
  · rfl
  · exact absurd rfl several
  · rfl

end Shape

variable {R : Type} [Number R]

-- No rule applies at the query or below it.
inductive Normal : Query R → Prop
  | always : Normal always
  | fact (a : Atom) : Normal (fact a)
  | fluent (a : Atom) : Normal (fluent a)
  | constant (x : R) : Normal (constant x)
  | arithmetic (op : ArithmeticOp) (left right : Query R)
      (irreducible : combine op left right = arithmetic op left right) :
      Normal left → Normal right → Normal (arithmetic op left right)
  | comparison (op : Comparison) (left right : Query R)
      (irreducible : compare op left right = comparison op left right) :
      Normal left → Normal right → Normal (comparison op left right)
  | conj (parts : List (Query R)) (several : 2 ≤ parts.length) (each : ∀ q ∈ parts, q.Conjunct ∧ q ≠ falsity) :
      (∀ q ∈ parts, Normal q) → Normal (conj parts)
  | disj (parts : List (Query R)) (several : parts.length ≠ 1) (each : ∀ q ∈ parts, q.Disjunct) :
      (∀ q ∈ parts, Normal q) → Normal (disj parts)
  | neg (body : Query R) (irreducible : negate body = neg body) : Normal body → Normal (neg body)
  | imply (premise conclusion : Query R) (irreducible : entail premise conclusion = imply premise conclusion) :
      Normal premise → Normal conclusion → Normal (imply premise conclusion)
  | forAll (vars : List Term) (body : Query R) (irreducible : quantify (forAll vars) body = forAll vars body) :
      Normal body → Normal (forAll vars body)
  | forSome (vars : List Term) (body : Query R) (irreducible : quantify (forSome vars) body = forSome vars body) :
      Normal body → Normal (forSome vars body)

theorem falsity_normal : (falsity : Query R).Normal := .disj [] nofun nofun nofun

theorem normal_child (q child : Query R) (normal : q.Normal) (member : child ∈ q.children) : child.Normal := by
  have pair (left right : Query R) (first : left.Normal) (second : right.Normal) (member : child ∈ [left, right]) :
      child.Normal := by
    obtain rfl | inRest := List.mem_cons.mp member
    · exact first
    · exact List.mem_singleton.mp inRest ▸ second
  cases normal with
  | always | fact | fluent | constant => cases member
  | arithmetic op left right _ first second => exact pair _ _ first second member
  | comparison op left right _ first second => exact pair _ _ first second member
  | imply premise conclusion _ first second => exact pair _ _ first second member
  | conj parts _ _ normal => exact normal child member
  | disj parts _ _ normal => exact normal child member
  | neg body _ normal => exact List.mem_singleton.mp member ▸ normal
  | forAll vars body _ normal => exact List.mem_singleton.mp member ▸ normal
  | forSome vars body _ normal => exact List.mem_singleton.mp member ▸ normal

theorem normal_inside (p q : Query R) (inside : p.Inside q) (normal : q.Normal) : p.Normal := by
  induction inside with
  | here => exact normal
  | deeper child q member _ ih => exact ih (normal_child q child normal member)

theorem normal_compact (q : Query R) (normal : q.Normal) : q.Compact := by
  cases normal with
  | conj parts several each => exact ⟨several, fun q member => (each q member).1⟩
  | disj parts several each =>
      refine ⟨?_, each⟩
      rw [← List.length_eq_zero_iff]
      omega
  | _ => trivial

theorem normal_fixed (q : Query R) (normal : q.Normal) : q.simplify = q := by
  have list (parts : List (Query R)) (each : ∀ q ∈ parts, q.simplify = q) : simplifyList parts = parts := by
    rw [simplify_list, List.map_congr_left each, List.map_id']
  induction normal with
  | always | fact | fluent | constant => rfl
  | arithmetic op left right irreducible _ _ first second => rw [simplify, first, second, irreducible]
  | comparison op left right irreducible _ _ first second => rw [simplify, first, second, irreducible]
  | conj parts several each _ ih => rw [simplify, list parts ih, conjoin_flat parts several each]
  | disj parts several each _ ih => rw [simplify, list parts ih, disjoin_flat parts several each]
  | neg body irreducible _ ih => rw [simplify, ih, irreducible]
  | imply premise conclusion irreducible _ _ first second => rw [simplify, first, second, irreducible]
  | forAll vars body irreducible _ ih => rw [simplify, ih, irreducible]
  | forSome vars body irreducible _ ih => rw [simplify, ih, irreducible]

theorem reduce_cases (op : ArithmeticOp) (left right : Query R) :
    (∃ x, reduce op left right = constant x) ∨ reduce op left right = left ∨ reduce op left right = right ∨
      reduce op left right = arithmetic op left right := by
  cases op with
  | add =>
      simp only [reduce]
      split
      · exact .inr (.inr (.inl rfl))
      · split
        · exact .inr (.inl rfl)
        · exact .inr (.inr (.inr rfl))
  | sub =>
      simp only [reduce]
      split
      · exact .inr (.inl rfl)
      · exact .inr (.inr (.inr rfl))
  | mul =>
      simp only [reduce]
      split
      · exact .inl ⟨_, rfl⟩
      · split
        · exact .inr (.inr (.inl rfl))
        · split
          · exact .inr (.inl rfl)
          · exact .inr (.inr (.inr rfl))
  | div => exact .inr (.inr (.inr rfl))

theorem combine_normal (op : ArithmeticOp) (left right : Query R) (first : left.Normal) (second : right.Normal) :
    (combine op left right).Normal := by
  by_cases both : ∃ x y, left = constant x ∧ right = constant y
  · obtain ⟨x, y, rfl, rfl⟩ := both
    rw [combine_constants]
    exact .constant _
  · have reduced := combine_open op left right fun x y atLeft atRight => both ⟨x, y, atLeft, atRight⟩
    obtain ⟨x, folded⟩ | kept | kept | irreducible := reduce_cases op left right
    · rw [reduced, folded]
      exact .constant x
    · rwa [reduced, kept]
    · rwa [reduced, kept]
    · rw [reduced, irreducible]
      exact .arithmetic op left right (reduced.trans irreducible) first second

theorem compare_normal (op : Comparison) (left right : Query R) (first : left.Normal) (second : right.Normal) :
    (compare op left right).Normal := by
  by_cases both : ∃ x y, left = constant x ∧ right = constant y
  · obtain ⟨x, y, rfl, rfl⟩ := both
    simp only [compare]
    split
    · exact .always
    · exact falsity_normal
  · have irreducible : compare op left right = comparison op left right := by
      unfold compare
      split
      · exact absurd ⟨_, _, rfl, rfl⟩ both
      · rfl
    rw [irreducible]
    exact .comparison op left right irreducible first second

theorem conjuncts_normal (q part : Query R) (normal : q.Normal) (consistent : q ≠ falsity)
    (member : part ∈ conjuncts q) : (part.Conjunct ∧ part ≠ falsity) ∧ part.Normal := by
  obtain rfl | ⟨parts, rfl⟩ | conjunct := conjunct_cases q
  · cases member
  · cases normal with
    | conj parts _ each normal => exact ⟨each part member, normal part member⟩
  · rw [conjuncts_single q conjunct, List.mem_singleton] at member
    exact member ▸ ⟨⟨conjunct, consistent⟩, normal⟩

theorem disjuncts_normal (q part : Query R) (normal : q.Normal) (contingent : q ≠ always)
    (member : part ∈ disjuncts q) : part.Disjunct ∧ part.Normal := by
  obtain rfl | ⟨parts, rfl⟩ | disjunct := disjunct_cases q
  · exact absurd rfl contingent
  · cases normal with
    | disj parts _ each normal => exact ⟨each part member, normal part member⟩
  · rw [disjuncts_single q disjunct, List.mem_singleton] at member
    exact member ▸ ⟨disjunct, normal⟩

theorem conjoin_normal (parts : List (Query R)) (normal : ∀ q ∈ parts, q.Normal) : (conjoin parts).Normal := by
  unfold conjoin
  split
  · exact falsity_normal
  · next consistent =>
      have each : ∀ part ∈ parts.flatMap conjuncts, (part.Conjunct ∧ part ≠ falsity) ∧ part.Normal := by
        intro part member
        obtain ⟨q, inParts, member⟩ := List.mem_flatMap.mp member
        refine conjuncts_normal q part (normal q inParts) ?_ member
        rintro rfl
        exact consistent (List.any_eq_true.mpr ⟨falsity, inParts, rfl⟩)
      split
      · exact .always
      · next q listed => exact (each q (listed ▸ List.mem_singleton_self q)).2
      · next nonempty several =>
          exact .conj _ (two_or_more _ nonempty several) (fun q member => (each q member).1)
            fun q member => (each q member).2

theorem disjoin_normal (parts : List (Query R)) (normal : ∀ q ∈ parts, q.Normal) : (disjoin parts).Normal := by
  unfold disjoin
  split
  · exact .always
  · next contingent =>
      have each : ∀ part ∈ parts.flatMap disjuncts, part.Disjunct ∧ part.Normal := by
        intro part member
        obtain ⟨q, inParts, member⟩ := List.mem_flatMap.mp member
        refine disjuncts_normal q part (normal q inParts) ?_ member
        rintro rfl
        exact contingent (List.any_eq_true.mpr ⟨always, inParts, rfl⟩)
      split
      · next q listed => exact (each q (listed ▸ List.mem_singleton_self q)).2
      · next several =>
          refine .disj _ ?_ (fun q member => (each q member).1) fun q member => (each q member).2
          intro single
          obtain ⟨q, listed⟩ := List.length_eq_one_iff.mp single
          exact several q listed

theorem negate_normal (body : Query R) (normal : body.Normal) : (negate body).Normal := by
  have irreducible (unfolded : negate body = neg body) : (negate body).Normal := by
    rw [unfolded]
    exact .neg body unfolded normal
  cases normal with
  | always => exact falsity_normal
  | neg body _ normal => exact normal
  | disj parts =>
      cases parts with
      | nil => exact .always
      | cons q rest => exact irreducible rfl
  | _ => exact irreducible rfl

theorem entail_normal (premise conclusion : Query R) (first : premise.Normal) (second : conclusion.Normal) :
    (entail premise conclusion).Normal := by
  by_cases trivialPremise : premise.isAlways = true
  · rw [entail, if_pos trivialPremise]
    exact second
  · by_cases trivial : (conclusion.isAlways || premise.isFalse) = true
    · rw [entail, if_neg trivialPremise, if_pos trivial]
      exact .always
    · have irreducible : entail premise conclusion = imply premise conclusion := by
        rw [entail, if_neg trivialPremise, if_neg trivial]
      rw [irreducible]
      exact .imply premise conclusion irreducible first second

theorem quantify_normal (quantifier : Query R → Query R) (body : Query R)
    (normal : quantify quantifier body = quantifier body → (quantifier body).Normal) :
    (quantify quantifier body).Normal := by
  by_cases trivial : body.isAlways = true
  · rw [quantify, if_pos trivial]
    exact .always
  · have irreducible : quantify quantifier body = quantifier body := if_neg trivial
    rw [irreducible]
    exact normal irreducible

theorem simplify_normal (q : Query R) : q.simplify.Normal := by
  have list (parts : List (Query R)) (each : ∀ q ∈ parts, q.simplify.Normal) : ∀ q ∈ simplifyList parts, q.Normal := by
    rw [simplify_list]
    exact List.forall_mem_map.mpr each
  induction q with
  | always => exact .always
  | fact a => exact .fact a
  | fluent a => exact .fluent a
  | constant x => exact .constant x
  | arithmetic op left right first second => exact combine_normal op _ _ first second
  | comparison op left right first second => exact compare_normal op _ _ first second
  | conj parts ih => exact conjoin_normal _ (list parts ih)
  | disj parts ih => exact disjoin_normal _ (list parts ih)
  | neg body ih => exact negate_normal _ ih
  | imply premise conclusion first second => exact entail_normal _ _ first second
  | forAll vars body ih => exact quantify_normal _ _ fun irreducible => .forAll vars _ irreducible ih
  | forSome vars body ih => exact quantify_normal _ _ fun irreducible => .forSome vars _ irreducible ih

end Replan.Query
