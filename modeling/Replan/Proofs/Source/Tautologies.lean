import Replan.Proofs.Query.Meaning
import Replan.Proofs.Source.ReadDomains
import Replan.Proofs.Source.Unchanged

set_option autoImplicit false

namespace Replan

def Query.Plain {R : Type} : Query R → Prop
  | fluent _ => True
  | q => q.Numeric ∧ q.Within (Vocabulary.fluentless R)

def Vocabulary.plainOperands (R : Type) : Vocabulary R := { operand := Query.Plain }

namespace Query

variable {R : Type} [Number R]

mutual
def Answerable (world : Universe) : Query R → Prop
  | always => True
  | fact _ => True
  | fluent _ => True
  | constant _ => True
  | arithmetic .. => True
  | comparison .. => True
  | conj parts => AnswerableList world parts
  | disj parts => AnswerableList world parts
  | neg body => Answerable world body
  | imply premise conclusion => Answerable world premise ∧ Answerable world conclusion
  | forAll _ body => Answerable world body
  | forSome vars body => (body.isEmpty = true → world.bindings vars ≠ []) ∧ Answerable world body

def AnswerableList (world : Universe) : List (Query R) → Prop
  | [] => True
  | q :: qs => Answerable world q ∧ AnswerableList world qs
end

theorem answerable_list (world : Universe) (qs : List (Query R)) :
    AnswerableList world qs ↔ ∀ q ∈ qs, q.Answerable world := by
  induction qs with
  | nil => simp [AnswerableList]
  | cons q qs ih => rw [AnswerableList, ih, List.forall_mem_cons]

def Parsed (q : Query R) : Prop := ∃ c next, Source.query c = .done q next

theorem parsed_legible (q : Query R) (parsed : q.Parsed) : ∃ licence, q.Legible licence fun _ => True := by
  obtain ⟨c, next, done⟩ := parsed
  exact ⟨_, (Source.yields_query c q next rfl done).1⟩

theorem legible_faithful {licence : RequirementSet → Prop} {number : R → Prop} (v : Vocabulary R)
    (same : ∀ q, v.operand q → ∀ s σs, q.simplify.evalUnder s σs = q.evalUnder s σs) (q : Query R) (s : State R)
    (legible : q.Legible licence number) (formed : q.Within v) (answerable : q.Answerable s.world) : q.Faithful s := by
  induction q with
  | always | fact => trivial
  | fluent | constant | arithmetic => cases legible
  | comparison op left right _ _ => exact ⟨same left formed.1.1 s, same right formed.2.1 s⟩
  | conj parts ih | disj parts ih =>
      rw [Legible, legible_list] at legible
      exact (faithful_list s parts).mpr fun q member => ih q member (legible.2 q member)
        ((within_list v parts).mp formed q member) ((answerable_list s.world parts).mp answerable q member)
  | neg body ih => exact ih legible formed answerable
  | imply premise conclusion first second =>
      exact ⟨first legible.2.1 formed.1 answerable.1, second legible.2.2 formed.2 answerable.2⟩
  | forAll vars body ih => exact ih legible.2.2 formed.2 answerable
  | forSome vars body ih => exact ⟨answerable.1, ih legible.2.2 formed.2 answerable.2⟩

theorem plain_same (q : Query R) (plain : q.Plain) (s : State R) (σs : List Substitution) :
    q.simplify.evalUnder s σs = q.evalUnder s σs := by
  cases q with
  | fluent a => rfl
  | constant x => rfl
  | arithmetic op left right =>
      obtain ⟨x, folded, value⟩ := fluentless_value _ plain.1 plain.2
      rw [folded, value]
      rfl
  | _ => cases plain.1

theorem empty_holds (q : Query R) (s : State R) (faithful : q.Faithful s) (empty : q.isEmpty = true)
    (σs : List Substitution) : (q.evalUnder s σs).asBool = true := by
  rw [← q.faithful_truth s σs faithful]
  exact is_always_truth _ empty s σs

theorem unanswerable_fails (vars : List Term) (body : Query R) (s : State R) (empty : body.isEmpty = true)
    (nobody : s.world.bindings vars = []) : (forSome vars body).isEmpty = true ∧ (forSome vars body).holds s = false := by
  constructor
  · have found : body.simplify.isAlways = true := empty
    rw [isEmpty, simplify, quantify, if_pos found]
    rfl
  · rw [holds, eval, evalUnder, nobody]
    rfl

end Query

theorem Universe.objects_kept (world : Universe) (t u : Term) (keeps : Term.KeepsType t u) :
    world.objectsOf u.kind = world.objectsOf t.kind := by
  rcases keeps.2 with same | ⟨untyped, object⟩
  · rw [same]
  · rw [untyped, object]
    rfl

theorem Universe.bindings_spelled (world : Universe) (vars : List Term) :
    world.bindings (Term.spellOut vars) = world.bindings vars := by
  have onward {ts us : List Term} (keep : List.Forall₂ Term.KeepsType ts us) (partials : List Substitution) :
      us.foldl (fun partials param => partials.flatMap fun σ =>
        (world.objectsOf param.kind).map fun o => σ.insert param.name o.name) partials =
      ts.foldl (fun partials param => partials.flatMap fun σ =>
        (world.objectsOf param.kind).map fun o => σ.insert param.name o.name) partials := by
    induction keep generalizing partials with
    | nil => rfl
    | cons first _ ih => rw [List.foldl_cons, List.foldl_cons, world.objects_kept _ _ first, first.1, ih]
  exact onward (Term.spell_out_keeps vars) [[]]

theorem Substitution.shadow_spelled (vars : List Term) : shadow (Term.spellOut vars) = shadow vars := by
  have named (ts : List Term) (name : String) : (ts.any fun t => t.name == name) = (ts.map Term.name).any (· == name) := by
    rw [List.any_map]
    rfl
  funext σ
  simp only [shadow, named, Term.spell_out_names]

section Exact

variable {R : Type} [Number R] [Number.Lawful R]

theorem Number.zero_exactly (x : R) (isZero : Number.isZero x = true) : x = Number.zero :=
  (Number.Lawful.equal x Number.zero).mp isZero

theorem Number.unsigned_exact (x : R) : Number.unsigned x = x := by
  rw [Number.unsigned]
  split
  · next isZero => exact (Number.zero_exactly x isZero).symm
  · rfl

theorem Number.alike_exact (x y : R) (alike : Number.Alike x y) : x = y := by
  rcases alike with same | ⟨first, second⟩
  · exact same
  · rw [Number.zero_exactly x first, Number.zero_exactly y second]

instance Number.lawful_zeros : Number.ZerosAlike R where
  zero := (Number.Lawful.equal Number.zero Number.zero).mpr rfl
  add x x' y y' first second := .inl (by rw [Number.alike_exact x x' first, Number.alike_exact y y' second])
  lt x y y' alike := by rw [Number.alike_exact y y' alike]
  le x x' y y' first second := by rw [Number.alike_exact x x' first, Number.alike_exact y y' second]

theorem Query.eval_as_read (q : Query R) (s : State R) (σs : List Substitution) :
    q.asRead.evalUnder s σs = q.evalUnder s σs := by
  induction q generalizing σs with
  | always | fact | fluent => rfl
  | constant x => rw [asRead, Number.unsigned_exact]
  | arithmetic op left right leftIH rightIH => rw [asRead, evalUnder, evalUnder, leftIH, rightIH]
  | comparison op left right leftIH rightIH => rw [asRead, evalUnder, evalUnder, leftIH, rightIH]
  | conj parts ih =>
      rw [asRead, evalUnder, evalUnder, all_under, all_under, as_read_list, List.all_map, Value.truth.injEq,
        Bool.eq_iff_iff, List.all_eq_true, List.all_eq_true]
      exact forall₂_congr fun q member => by rw [Function.comp_apply, ih q member]
  | disj parts ih =>
      rw [asRead, evalUnder, evalUnder, any_under, any_under, as_read_list, List.any_map, Value.truth.injEq,
        Bool.eq_iff_iff, List.any_eq_true, List.any_eq_true]
      exact exists_congr fun q => and_congr_right fun member => by rw [Function.comp_apply, ih q member]
  | neg body ih => rw [asRead, evalUnder, evalUnder, ih]
  | imply premise conclusion first second => rw [asRead, evalUnder, evalUnder, first, second]
  | forAll vars body ih => simp only [asRead, evalUnder, Universe.bindings_spelled, Substitution.shadow_spelled, ih]
  | forSome vars body ih => simp only [asRead, evalUnder, Universe.bindings_spelled, Substitution.shadow_spelled, ih]

end Exact

end Replan
