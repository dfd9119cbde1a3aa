import Mathlib.Logic.Function.Basic
import Replan.Proofs.Query.Substitution
import Replan.Proofs.Query.Vocabulary
import Replan.Proofs.Universe

set_option autoImplicit false

namespace Replan

/-- What the names in a query stand for. -/
abbrev Assignment := String → String

def Substitution.assignment (σ : Substitution) : Assignment := fun name => (σ.lookup? name).getD name

def Atom.under (ρ : Assignment) (a : Atom) : Ground := ⟨a.name, a.args.map fun t => ρ t.name⟩

namespace Universe

def suits (u : Universe) (kind : Option String) (o : Term) : Bool :=
  kind.all fun k => k == "object" || o.kind.any fun declared => u.types.isSubtype declared k

def extensions (u : Universe) : List Term → Assignment → List Assignment
  | [], ρ => [ρ]
  | x :: vars, ρ =>
      (u.objects.filter (u.suits x.kind)).flatMap fun o => extensions u vars (Function.update ρ x.name o.name)

end Universe

namespace Query

variable {R : Type} [Number R]

mutual
/-- The value of a query under an assignment. Quantified variables get new values, which hide the old ones. -/
def meaning (s : State R) (ρ : Assignment) : Query R → Value R
  | always => .truth true
  | fact a => .truth (s.holds (a.under ρ))
  | fluent a => .number (s.value (a.under ρ))
  | constant x => .number x
  | arithmetic op left right => .number (op.apply (meaning s ρ left).asNumber (meaning s ρ right).asNumber)
  | comparison op left right => .truth (op.apply (meaning s ρ left).asNumber (meaning s ρ right).asNumber)
  | conj parts => .truth (allMeant s ρ parts)
  | disj parts => .truth (anyMeant s ρ parts)
  | neg body => .truth (!(meaning s ρ body).asBool)
  | imply premise conclusion => .truth (!(meaning s ρ premise).asBool || (meaning s ρ conclusion).asBool)
  | forAll vars body => .truth ((s.world.extensions vars ρ).all fun ρ' => (meaning s ρ' body).asBool)
  | forSome vars body => .truth ((s.world.extensions vars ρ).any fun ρ' => (meaning s ρ' body).asBool)

def allMeant (s : State R) (ρ : Assignment) : List (Query R) → Bool
  | [] => true
  | q :: qs => (meaning s ρ q).asBool && allMeant s ρ qs

def anyMeant (s : State R) (ρ : Assignment) : List (Query R) → Bool
  | [] => false
  | q :: qs => (meaning s ρ q).asBool || anyMeant s ρ qs
end

theorem all_meant (s : State R) (ρ : Assignment) (qs : List (Query R)) :
    allMeant s ρ qs = qs.all fun q => (q.meaning s ρ).asBool := by
  induction qs with
  | nil => rfl
  | cons q qs ih => rw [allMeant, ih, List.all_cons]

theorem any_meant (s : State R) (ρ : Assignment) (qs : List (Query R)) :
    anyMeant s ρ qs = qs.any fun q => (q.meaning s ρ).asBool := by
  induction qs with
  | nil => rfl
  | cons q qs ih => rw [anyMeant, ih, List.any_cons]

end Query

section Ranges

theorem Universe.objects_of_suits (u : Universe) (kind : Option String) :
    u.objectsOf kind = u.objects.filter (u.suits kind) := by
  cases kind with
  | none => exact (List.filter_true u.objects).symm
  | some k =>
      by_cases top : k = "object"
      · subst top
        exact (List.filter_true u.objects).symm
      · rw [objectsOf, if_neg top]
        refine List.filter_congr fun o _ => ?_
        rw [belongs, suits, Option.all_some, beq_false_of_ne top, Bool.false_or]
        cases o.kind with
        | none => rfl
        | some declared => rw [Option.any_some, Hierarchy.isSubtype, beq_false_of_ne top, Bool.false_or]

def Substitution.masking (ρ : Assignment) (β : Substitution) : Assignment := fun name => (β.lookup? name).getD (ρ name)

theorem Substitution.masking_insert (ρ : Assignment) (β : Substitution) (name value : String) :
    masking ρ (β.insert name value) = Function.update (masking ρ β) name value := by
  funext n
  rw [masking, lookup_insert]
  by_cases same : name = n
  · rw [if_pos same, same, Function.update_self]
    rfl
  · rw [if_neg same, Function.update_of_ne (Ne.symm same)]
    rfl

theorem Universe.extensions_bindings (u : Universe) (vars : List Term) (ρ : Assignment) :
    u.extensions vars ρ = (u.bindings vars).map (Substitution.masking ρ) := by
  have extended (partials : List Substitution) :
      (vars.foldl
        (fun partials param =>
          partials.flatMap fun σ => (u.objectsOf param.kind).map fun o => σ.insert param.name o.name)
        partials).map (Substitution.masking ρ) = partials.flatMap fun σ => u.extensions vars (σ.masking ρ) := by
    induction vars generalizing partials with
    | nil => exact List.map_eq_flatMap
    | cons x vars ih =>
        rw [List.foldl_cons, ih, List.flatMap_assoc]
        refine List.flatMap_congr fun σ _ => ?_
        rw [extensions, List.flatMap_map, objects_of_suits]
        simp only [Substitution.masking_insert]
  rw [bindings, extended, List.flatMap_singleton]
  rfl

end Ranges

section Substituting

def Substitution.through (σs : List Substitution) : Assignment :=
  fun name => σs.foldl (fun name σ => σ.assignment name) name

theorem Atom.bind_all_under (σs : List Substitution) (a : Atom) :
    (a.bindAll σs).ground = a.under (Substitution.through σs) := by
  induction σs generalizing a with
  | nil => rfl
  | cons σ σs ih =>
      show ((a.bind σ).bindAll σs).ground = _
      rw [ih, under, under, bind, List.map_map]
      rfl

def Substitution.Gives (σ : Substitution) (value : String) : Prop := ∃ name, σ.lookup? name = some value

theorem Substitution.shadow_gives (vars : List Term) (σ : Substitution) (value : String)
    (gives : (σ.shadow vars).Gives value) : σ.Gives value := by
  obtain ⟨name, found⟩ := gives
  rw [lookup_shadow] at found
  split at found
  · cases found
  · exact ⟨name, found⟩

theorem Substitution.assignment_shadow (vars : List Term) (σ : Substitution) (name : String) :
    (σ.shadow vars).assignment name = if name ∈ vars.map Term.name then name else σ.assignment name := by
  have among : (vars.any fun v => v.name == name) = true ↔ name ∈ vars.map Term.name := by simp
  rw [assignment, lookup_shadow]
  simp only [among]
  split <;> rfl

theorem Substitution.through_shadowed (vars : List Term) (σs : List Substitution)
    (apart : ∀ σ ∈ σs, ∀ x ∈ vars, ¬σ.Gives x.name) (name : String) :
    (name ∈ vars.map Term.name → through (σs.map (shadow vars)) name = name) ∧
      (name ∉ vars.map Term.name →
        through (σs.map (shadow vars)) name = through σs name ∧ through σs name ∉ vars.map Term.name) := by
  induction σs generalizing name with
  | nil => exact ⟨fun _ => rfl, fun other => ⟨rfl, other⟩⟩
  | cons σ σs ih =>
      obtain ⟨first, others⟩ := List.forall_mem_cons.mp apart
      have onward : through ((σ :: σs).map (shadow vars)) name =
          through (σs.map (shadow vars)) ((σ.shadow vars).assignment name) := rfl
      rw [onward, assignment_shadow]
      constructor
      · intro hidden
        rw [if_pos hidden]
        exact (ih others name).1 hidden
      · intro free
        rw [if_neg free]
        refine (ih others (σ.assignment name)).2 ?_
        rw [assignment]
        cases found : σ.lookup? name with
        | none => exact free
        | some value =>
            intro hidden
            obtain ⟨x, member, same⟩ := List.mem_map.mp hidden
            exact first x member ⟨name, by rw [found, same]; rfl⟩

theorem Substitution.through_extended (u : Universe) (vars : List Term) (σs : List Substitution)
    (apart : ∀ σ ∈ σs, ∀ x ∈ vars, ¬σ.Gives x.name) (β : Substitution) (member : β ∈ u.bindings vars) :
    through (σs.map (shadow vars) ++ [β]) = masking (through σs) β := by
  funext name
  have last : through (σs.map (shadow vars) ++ [β]) name = β.assignment (through (σs.map (shadow vars)) name) := by
    rw [through, List.foldl_append]
    rfl
  obtain ⟨kept, passed⟩ := through_shadowed vars σs apart name
  rw [last]
  by_cases hidden : name ∈ vars.map Term.name
  · obtain ⟨o, -, found⟩ := (u.binding_lookup vars β member name).2 hidden
    rw [kept hidden, assignment, masking, found]
    rfl
  · obtain ⟨same, free⟩ := passed hidden
    rw [same, assignment, masking, (u.binding_lookup vars β member _).1 free,
      (u.binding_lookup vars β member _).1 hidden]

end Substituting

def Vocabulary.unbound (R : Type) (taken : String → Prop) : Vocabulary R where
  forAll vars := ∀ x ∈ vars, ¬taken x.name
  forSome vars := ∀ x ∈ vars, ¬taken x.name

namespace Query

variable {R : Type} [Number R]

section Assignments

variable (s : State R) (taken : String → Prop) (named : ∀ o ∈ s.world.objects, taken o.name)

include named in
omit [Number R] in
theorem taken_extended (vars : List Term) (σs : List Substitution) (given : ∀ σ ∈ σs, ∀ v, σ.Gives v → taken v)
    (β : Substitution) (member : β ∈ s.world.bindings vars) :
    ∀ σ ∈ σs.map (·.shadow vars) ++ [β], ∀ v, σ.Gives v → taken v := by
  intro τ listed v gives
  rcases List.mem_append.mp listed with earlier | last
  · obtain ⟨σ, known, rfl⟩ := List.mem_map.mp earlier
    exact given σ known v (σ.shadow_gives vars v gives)
  · obtain ⟨name, found⟩ := gives
    rw [List.mem_singleton.mp last] at found
    obtain ⟨absent, present⟩ := s.world.binding_lookup vars β member name
    by_cases among : name ∈ vars.map Term.name
    · obtain ⟨o, known, same⟩ := present among
      rw [found] at same
      cases same
      exact named o known
    · rw [absent among] at found
      cases found

include named in
theorem eval_under_meaning (q : Query R) (apart : q.Within (Vocabulary.unbound R taken)) (σs : List Substitution)
    (given : ∀ σ ∈ σs, ∀ v, σ.Gives v → taken v) : q.evalUnder s σs = q.meaning s (Substitution.through σs) := by
  induction q generalizing σs with
  | always => rfl
  | constant x => rfl
  | fact a => rw [evalUnder, meaning, a.bind_all_under]
  | fluent a => rw [evalUnder, meaning, a.bind_all_under]
  | arithmetic op left right leftIH rightIH =>
      rw [evalUnder, meaning, leftIH apart.1.2 σs given, rightIH apart.2.2 σs given]
  | comparison op left right leftIH rightIH =>
      rw [evalUnder, meaning, leftIH apart.1.2 σs given, rightIH apart.2.2 σs given]
  | conj parts ih =>
      rw [evalUnder, meaning, all_under, all_meant]
      refine congrArg Value.truth (Bool.eq_iff_iff.mpr ?_)
      rw [List.all_eq_true, List.all_eq_true]
      exact forall₂_congr fun q member => by rw [ih q member ((within_list _ parts).mp apart q member) σs given]
  | disj parts ih =>
      rw [evalUnder, meaning, any_under, any_meant]
      refine congrArg Value.truth (Bool.eq_iff_iff.mpr ?_)
      rw [List.any_eq_true, List.any_eq_true]
      exact exists_congr fun q => and_congr_right fun member => by
        rw [ih q member ((within_list _ parts).mp apart q member) σs given]
  | neg body ih => rw [evalUnder, meaning, ih apart σs given]
  | imply premise conclusion premiseIH conclusionIH =>
      rw [evalUnder, meaning, premiseIH apart.1 σs given, conclusionIH apart.2 σs given]
  | forAll vars body ih =>
      rw [evalUnder, meaning, Universe.extensions_bindings, List.all_map]
      refine congrArg Value.truth (Bool.eq_iff_iff.mpr ?_)
      rw [List.all_eq_true, List.all_eq_true]
      refine forall₂_congr fun β member => ?_
      rw [ih apart.2 _ (taken_extended s taken named vars σs given β member),
        Substitution.through_extended s.world vars σs
          (fun σ known x bound gives => apart.1 x bound (given σ known _ gives)) β member]
      rfl
  | forSome vars body ih =>
      rw [evalUnder, meaning, Universe.extensions_bindings, List.any_map]
      refine congrArg Value.truth (Bool.eq_iff_iff.mpr ?_)
      rw [List.any_eq_true, List.any_eq_true]
      refine exists_congr fun β => and_congr_right fun member => ?_
      rw [ih apart.2 _ (taken_extended s taken named vars σs given β member),
        Substitution.through_extended s.world vars σs
          (fun σ known x bound gives => apart.1 x bound (given σ known _ gives)) β member]
      rfl

end Assignments

end Query

namespace Query

variable {R : Type}

mutual
def nodes : Query R → Nat
  | arithmetic _ left right => nodes left + nodes right + 1
  | comparison _ left right => nodes left + nodes right + 1
  | conj parts => nodesList parts + 1
  | disj parts => nodesList parts + 1
  | neg body => nodes body + 1
  | imply premise conclusion => nodes premise + nodes conclusion + 1
  | forAll _ body => nodes body + 1
  | forSome _ body => nodes body + 1
  | _ => 1

def nodesList : List (Query R) → Nat
  | [] => 0
  | q :: qs => nodes q + nodesList qs
end

theorem nodes_part (parts : List (Query R)) (q : Query R) (member : q ∈ parts) : q.nodes ≤ nodesList parts := by
  induction parts with
  | nil => cases member
  | cons p parts ih =>
      rw [nodesList]
      rcases List.mem_cons.mp member with rfl | later
      · exact Nat.le_add_right _ _
      · exact Nat.le_trans (ih later) (Nat.le_add_left _ _)

theorem nodes_list_bind (σ : Substitution) (parts : List (Query R))
    (each : ∀ q ∈ parts, (q.bind σ).nodes = q.nodes) : nodesList (bindList σ parts) = nodesList parts := by
  induction parts with
  | nil => rfl
  | cons p parts ih =>
      obtain ⟨first, others⟩ := List.forall_mem_cons.mp each
      rw [bindList, nodesList, nodesList, first, ih others]

theorem nodes_bind (q : Query R) (σ : Substitution) : (q.bind σ).nodes = q.nodes := by
  induction q generalizing σ with
  | arithmetic op left right leftIH rightIH => rw [bind, nodes, nodes, leftIH, rightIH]
  | comparison op left right leftIH rightIH => rw [bind, nodes, nodes, leftIH, rightIH]
  | conj parts ih => rw [bind, nodes, nodes, nodes_list_bind σ parts fun q member => ih q member σ]
  | disj parts ih => rw [bind, nodes, nodes, nodes_list_bind σ parts fun q member => ih q member σ]
  | neg body ih => rw [bind, nodes, nodes, ih]
  | imply premise conclusion premiseIH conclusionIH => rw [bind, nodes, nodes, premiseIH, conclusionIH]
  | forAll vars body ih => rw [bind, nodes, nodes, ih]
  | forSome vars body ih => rw [bind, nodes, nodes, ih]
  | always | fact | fluent | constant => rfl

/-- The queries that the evaluation of a query asks for: its parts, and the instances of a quantified body. -/
inductive Asks (s : State R) : Query R → Query R → Prop where
  | leftTerm (op : ArithmeticOp) (left right : Query R) : Asks s left (arithmetic op left right)
  | rightTerm (op : ArithmeticOp) (left right : Query R) : Asks s right (arithmetic op left right)
  | leftSide (op : Comparison) (left right : Query R) : Asks s left (comparison op left right)
  | rightSide (op : Comparison) (left right : Query R) : Asks s right (comparison op left right)
  | conjunct (parts : List (Query R)) (q : Query R) : q ∈ parts → Asks s q (conj parts)
  | disjunct (parts : List (Query R)) (q : Query R) : q ∈ parts → Asks s q (disj parts)
  | negated (body : Query R) : Asks s body (neg body)
  | premise (premise conclusion : Query R) : Asks s premise (imply premise conclusion)
  | conclusion (premise conclusion : Query R) : Asks s conclusion (imply premise conclusion)
  | everyInstance (vars : List Term) (body : Query R) (β : Substitution) :
      β ∈ s.world.bindings vars → Asks s (body.bind β) (forAll vars body)
  | someInstance (vars : List Term) (body : Query R) (β : Substitution) :
      β ∈ s.world.bindings vars → Asks s (body.bind β) (forSome vars body)

theorem asks_fewer (s : State R) (p q : Query R) (asks : Asks s p q) : p.nodes < q.nodes := by
  cases asks with
  | leftTerm | leftSide | premise => exact Nat.lt_succ_of_le (Nat.le_add_right _ _)
  | rightTerm | rightSide | conclusion => exact Nat.lt_succ_of_le (Nat.le_add_left _ _)
  | conjunct parts _ member => exact Nat.lt_succ_of_le (nodes_part parts p member)
  | disjunct parts _ member => exact Nat.lt_succ_of_le (nodes_part parts p member)
  | negated => exact Nat.lt_succ_self _
  | everyInstance vars body β => exact Nat.lt_succ_of_le (Nat.le_of_eq (body.nodes_bind β))
  | someInstance vars body β => exact Nat.lt_succ_of_le (Nat.le_of_eq (body.nodes_bind β))

theorem asks_well_founded (s : State R) : WellFounded (Asks s) :=
  Subrelation.wf (fun {p q} asks => asks_fewer s p q asks) (measure nodes).wf

variable [Number R]

def evalOnce (s : State R) (value : Query R → Value R) : Query R → Value R
  | always => .truth true
  | fact a => .truth (s.holds a.ground)
  | fluent a => .number (s.value a.ground)
  | constant x => .number x
  | arithmetic op left right => .number (op.apply (value left).asNumber (value right).asNumber)
  | comparison op left right => .truth (op.apply (value left).asNumber (value right).asNumber)
  | conj parts => .truth (parts.all fun q => (value q).asBool)
  | disj parts => .truth (parts.any fun q => (value q).asBool)
  | neg body => .truth (!(value body).asBool)
  | imply premise conclusion => .truth (!(value premise).asBool || (value conclusion).asBool)
  | forAll vars body => .truth ((s.world.bindings vars).all fun β => (value (body.bind β)).asBool)
  | forSome vars body => .truth ((s.world.bindings vars).any fun β => (value (body.bind β)).asBool)

theorem eval_once (s : State R) (q : Query R) : q.eval s = evalOnce s (eval s) q := by
  cases q with
  | conj parts => rw [eval, evalUnder, all_under]; rfl
  | disj parts => rw [eval, evalUnder, any_under]; rfl
  | forAll vars body =>
      have instances (β : Substitution) : (body.bind β).eval s = body.evalUnder s [β] := body.eval_bind s β []
      rw [eval, evalUnder, evalOnce]
      simp only [instances, List.map_nil, List.nil_append]
  | forSome vars body =>
      have instances (β : Substitution) : (body.bind β).eval s = body.evalUnder s [β] := body.eval_bind s β []
      rw [eval, evalUnder, evalOnce]
      simp only [instances, List.map_nil, List.nil_append]
  | _ => rfl

theorem eval_once_congr (s : State R) (f g : Query R → Value R) (q : Query R)
    (alike : ∀ p, Asks s p q → f p = g p) : evalOnce s f q = evalOnce s g q := by
  cases q with
  | always | fact | fluent | constant => rfl
  | arithmetic op left right =>
      rw [evalOnce, evalOnce, alike left (.leftTerm op left right), alike right (.rightTerm op left right)]
  | comparison op left right =>
      rw [evalOnce, evalOnce, alike left (.leftSide op left right), alike right (.rightSide op left right)]
  | conj parts =>
      refine congrArg Value.truth (Bool.eq_iff_iff.mpr ?_)
      rw [List.all_eq_true, List.all_eq_true]
      exact forall₂_congr fun q member => by rw [alike q (.conjunct parts q member)]
  | disj parts =>
      refine congrArg Value.truth (Bool.eq_iff_iff.mpr ?_)
      rw [List.any_eq_true, List.any_eq_true]
      exact exists_congr fun q => and_congr_right fun member => by rw [alike q (.disjunct parts q member)]
  | neg body => rw [evalOnce, evalOnce, alike body (.negated body)]
  | imply premise conclusion =>
      rw [evalOnce, evalOnce, alike premise (.premise premise conclusion),
        alike conclusion (.conclusion premise conclusion)]
  | forAll vars body =>
      refine congrArg Value.truth (Bool.eq_iff_iff.mpr ?_)
      rw [List.all_eq_true, List.all_eq_true]
      exact forall₂_congr fun β member => by rw [alike _ (.everyInstance vars body β member)]
  | forSome vars body =>
      refine congrArg Value.truth (Bool.eq_iff_iff.mpr ?_)
      rw [List.any_eq_true, List.any_eq_true]
      exact exists_congr fun β => and_congr_right fun member => by rw [alike _ (.someInstance vars body β member)]

theorem eval_only (s : State R) (f : Query R → Value R) : (∀ q, f q = evalOnce s f q) ↔ f = eval s := by
  constructor
  · intro recursive
    funext q
    induction q using (asks_well_founded s).induction with
    | _ q ih => rw [recursive q, eval_once_congr s f (eval s) q ih, ← eval_once]
  · rintro rfl q
    exact eval_once s q

/-- Queries mean what first-order formulas mean under an assignment, and evaluation is the only solution of its own
equations. -/
theorem evaluation_is_first_order (s : State R) :
    (∀ (q : Query R) (σ : Substitution),
      q.Within (Vocabulary.unbound R fun name => σ.Gives name ∨ ∃ o ∈ s.world.objects, o.name = name) →
        (q.bind σ).eval s = q.meaning s σ.assignment) ∧
    WellFounded (Asks s) ∧
    (∀ (f g : Query R → Value R) (q : Query R), (∀ p, Asks s p q → f p = g p) → evalOnce s f q = evalOnce s g q) ∧
    ∀ f : Query R → Value R, (∀ q, f q = evalOnce s f q) ↔ f = eval s := by
  refine ⟨fun q σ apart => ?_, asks_well_founded s, eval_once_congr s, eval_only s⟩
  rw [eval, eval_bind]
  refine eval_under_meaning s _ (fun o known => .inr ⟨o, known, rfl⟩) q apart [σ] ?_
  intro τ listed v gives
  rw [List.mem_singleton.mp listed] at gives
  exact .inl gives

def allOnTable : Query Float :=
  .forAll [⟨"?x", some "thing"⟩] (.conj [.fact ⟨"on", [Term.untyped "?x", Term.untyped "?y"]⟩,
    .forSome [⟨"?x", some "table"⟩] (.fact ⟨"=", [Term.untyped "?x", Term.untyped "?y"]⟩)])

def tableState : State Float :=
  ⟨[⟨"on", ["cup", "desk"]⟩], [], 0, 0,
    ⟨[⟨"cup", some "vessel"⟩, ⟨"desk", some "table"⟩], ⟨[("vessel", "thing"), ("thing", "object")]⟩⟩⟩

theorem evaluation_is_first_order_table :
    allOnTable.Within (Vocabulary.unbound Float fun name =>
      Substitution.Gives [("?y", "desk")] name ∨ ∃ o ∈ tableState.world.objects, o.name = name) ∧
    (allOnTable.bind [("?y", "desk")]).eval tableState =
      allOnTable.meaning tableState (Substitution.assignment [("?y", "desk")]) ∧
    (allOnTable.meaning tableState (Substitution.assignment [("?y", "desk")])).asBool = true := by
  have free : ¬(Substitution.Gives [("?y", "desk")] "?x" ∨ ∃ o ∈ tableState.world.objects, o.name = "?x") := by
    rintro (⟨name, found⟩ | object)
    · have given := Substitution.lookup_mem _ name "?x" found
      simp at given
    · revert object
      decide
  have apart : allOnTable.Within (Vocabulary.unbound Float fun name =>
      Substitution.Gives [("?y", "desk")] name ∨ ∃ o ∈ tableState.world.objects, o.name = name) :=
    ⟨List.forall_mem_singleton.mpr free, trivial, ⟨List.forall_mem_singleton.mpr free, trivial⟩, trivial⟩
  exact ⟨apart, (evaluation_is_first_order tableState).1 allOnTable _ apart, by decide⟩

end Query

end Replan
