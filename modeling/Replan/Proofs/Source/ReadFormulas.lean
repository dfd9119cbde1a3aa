import Replan.Proofs.Source.EffectText
import Replan.Proofs.Source.ReadNumbers

set_option autoImplicit false

namespace Replan.Source

open Replan.Source.Parser

variable {R α β : Type} {G : RequirementSet}

theorem yields_quantified {body : Parser R α} {P : α → Prop} (w : String) (oneOf : RequirementSet)
    (yields : Yields G body P) :
    Yields G (quantified w oneOf body)
      (fun pair => Opens G oneOf ∧ Declares IsVariable (Opens G) pair.1 ∧ P pair.2) := by
  refine yields_parens (yields_bind (yields_requires oneOf (yields_keyword w)) fun _ licensed => yields_cut ?_)
  refine yields_bind (yields_parens (yields_typed_list yields_variable)) fun vars declares => ?_
  exact yields_then_pure _ yields fun inner known => ⟨licensed.2, declares, known⟩

theorem quantified_plain {body : Parser R α} {w : String} {oneOf : RequirementSet} {f : List Term × α → β}
    (c next : Cursor) (a : Atom) (e : Diagnostic R) (done : (atom : Parser R Atom) c = .done a next)
    (missed : (quantified w oneOf body >>= fun pair => pure (f pair)) c = .miss e) : a.name ≠ w := by
  obtain ⟨e, missed⟩ := sure_bind_missed c e (fun _ => sure_pure _) missed
  exact atom_plain c next a e done missed (fun _ => sure_cut) fun c e missed => ⟨e, requires_missed oneOf c e missed⟩

variable [Number R]

theorem equality_legible (c next : Cursor) (q : Query R) (e : Diagnostic R) (same : c.requirements = G)
    (done : (parens do
      keyword "="
      let left ← term
      let right ← term
      pure (.fact ⟨"=", [left, right]⟩) : Parser R (Query R)) c = .done q next)
    (missed : (parens do
      let op ← comparisonOp
      let left ← expression
      let right ← expression
      pure (.comparison op left right) : Parser R (Query R)) c = .miss e) :
    q.Legible (Opens G) (fun _ => True) ∧ next.requirements = G := by
  have kept := yields_parens (G := G) (yields_bind (yields_keyword "=") fun _ _ =>
    yields_bind yields_term fun _ _ => yields_then_pure (Q := fun _ => True) _ yields_term fun _ _ => trivial) c q next same done
  refine ⟨?_, kept.2⟩
  obtain ⟨inside, later, opened, done⟩ := parens_done c next q done
  obtain ⟨e, missed⟩ := parens_missed c inside e opened missed
  obtain ⟨u, c₁, equals, done⟩ := bind_done inside later q done
  obtain ⟨l, c₂, left, done⟩ := bind_done c₁ later q done
  obtain ⟨r, c₃, right, done⟩ := bind_done c₂ later q done
  obtain ⟨rfl, -⟩ := pure_done _ q c₃ later done
  have leftTerm := (yields_term c₁ l c₂ rfl left).1
  have rightTerm := (yields_term c₂ r c₃ rfl right).1
  exact .equality l r leftTerm rightTerm (equality_names inside c₁ c₂ c₃ u l r e equals left right missed)

theorem yields_query_within (depth : Nat) :
    Yields (R := R) G (queryWithin depth) (Query.Legible (Opens G) fun _ => True) := by
  induction depth with
  | zero =>
      intro c q next same done
      cases done
  | succ depth ih =>
      refine yields_named _ fun c q next same done => ?_
      have parts := yields_cut (yields_many ih)
      rcases either_done c next q done with here | ⟨-, done⟩
      · exact yields_as Query.always yields_empty_parens trivial c q next same here
      rcases either_done c next q done with here | ⟨⟨e₁, noAnd⟩, done⟩
      · refine yields_parens (yields_bind (yields_keyword "and") fun _ _ => yields_then_pure _ parts fun parts each => ?_)
          c q next same here
        split
        · trivial
        · next some => exact ⟨by simpa using some, (Query.legible_list _ _ parts).mpr each⟩
      rcases either_done c next q done with here | ⟨⟨e₂, noOr⟩, done⟩
      · exact yields_parens (yields_bind (yields_requires _ (yields_keyword "or")) fun _ licensed =>
          yields_then_pure _ parts fun parts each => ⟨licensed.2, (Query.legible_list _ _ parts).mpr each⟩) c q next same here
      rcases either_done c next q done with here | ⟨⟨e₃, noNot⟩, done⟩
      · exact yields_parens (yields_bind (yields_keyword "not") fun _ _ => yields_then_pure Query.neg (yields_cut ih)
          fun _ => id) c q next same here
      rcases either_done c next q done with here | ⟨⟨e₄, noImply⟩, done⟩
      · exact yields_parens (yields_bind (yields_requires _ (yields_keyword "imply")) fun _ licensed => yields_cut
          (yields_bind ih fun _ premise => yields_then_pure _ ih fun _ conclusion => ⟨licensed.2, premise, conclusion⟩))
          c q next same here
      rcases either_done c next q done with here | ⟨⟨e₅, noForAll⟩, done⟩
      · exact yields_then_pure (fun pair => Query.forAll pair.1 pair.2) (yields_quantified _ _ ih) (fun _ => id)
          c q next same here
      rcases either_done c next q done with here | ⟨⟨e₆, noForSome⟩, done⟩
      · exact yields_then_pure (fun pair => Query.forSome pair.1 pair.2) (yields_quantified _ _ ih) (fun _ => id)
          c q next same here
      rcases either_done c next q done with here | ⟨⟨e₇, noComparison⟩, done⟩
      · exact yields_parens (yields_bind yields_comparison_op fun _ _ => yields_bind yields_expression fun _ left =>
          yields_then_pure _ yields_expression fun _ right => ⟨left, right⟩) c q next same here
      rcases either_done c next q done with here | ⟨-, done⟩
      · exact equality_legible c next q e₇ same here noComparison
      · obtain ⟨a, later, found, done⟩ := bind_done c next q done
        obtain ⟨rfl, rfl⟩ := pure_done _ q later next done
        obtain ⟨reads, kept⟩ := yields_atom c a later same found
        refine ⟨.atom a reads fun reserved => ?_, kept⟩
        have gate (oneOf : RequirementSet) (w : String) : ∀ c e, requires oneOf (keyword (R := R) w) c = .miss e →
            ∃ e, (keyword w : Parser R Unit) c = .miss e := fun c e missed => ⟨e, requires_missed oneOf c e missed⟩
        simp only [Query.words, List.mem_cons, List.not_mem_nil, or_false] at reserved
        rcases reserved with isAnd | isOr | isNot | isImply | isForAll | isForSome
        · exact atom_plain c later a e₁ found noAnd (fun _ => sure_bind sure_cut fun _ => sure_pure _) (fun _ e missed => ⟨e, missed⟩) isAnd
        · exact atom_plain c later a e₂ found noOr (fun _ => sure_bind sure_cut fun _ => sure_pure _) (gate _ _) isOr
        · exact atom_plain c later a e₃ found noNot (fun _ => sure_bind sure_cut fun _ => sure_pure _) (fun _ e missed => ⟨e, missed⟩) isNot
        · exact atom_plain c later a e₄ found noImply (fun _ => sure_cut) (gate _ _) isImply
        · exact quantified_plain c later a e₅ found noForAll isForAll
        · exact quantified_plain c later a e₆ found noForSome isForSome

theorem yields_query : Yields (R := R) G query (Query.Legible (Opens G) fun _ => True) :=
  fun c => yields_query_within _ c

theorem distribution_done (start c next : Cursor) (outcomes : List (R × Effect R)) (e : Effect R)
    (done : distribution start outcomes c = .done e next) :
    e = .probabilistic outcomes ∧ Effect.IsDistribution outcomes ∧ next = c := by
  rw [distribution] at done
  cases accepted : Effect.probabilistic? outcomes with
  | error f => rw [accepted] at done; cases done
  | ok d =>
      rw [accepted] at done
      cases done
      have same := Effect.probabilistic_ok outcomes e accepted
      subst same
      exact ⟨rfl, accepted, rfl⟩

theorem sure_distribution (start : Cursor) (outcomes : List (R × Effect R)) : Sure (distribution start outcomes) := by
  intro c e missed
  rw [distribution] at missed
  split at missed <;> cases missed

omit [Number R] in
theorem yields_assign_op : Yields (R := R) G assignOp (fun _ => True) := by
  refine yields_first_of _ (yields_as _ (yields_keyword _) trivial) fun q member => ?_
  simp only [List.mem_cons, List.not_mem_nil, or_false] at member
  rcases member with rfl | rfl | rfl | rfl <;> exact yields_as _ (yields_keyword _) trivial

omit [Number R] in
theorem assign_op_missed (op : AssignOp) (c : Cursor) (e : Diagnostic R) (missed : (assignOp : Parser R AssignOp) c = .miss e) :
    ∃ e, (keyword op.keyword : Parser R Unit) c = .miss e := by
  have each := first_of_missed _ c e missed
  simp only [List.forall_mem_cons] at each
  obtain ⟨⟨e₁, one⟩, ⟨e₂, two⟩, ⟨e₃, three⟩, ⟨e₄, four⟩, ⟨e₅, five⟩, -⟩ := each
  have word {op : AssignOp} {w : String} {e : Diagnostic R} : (as op (keyword w) : Parser R AssignOp) c = .miss e →
      ∃ e, (keyword w : Parser R Unit) c = .miss e := sure_bind_missed c e fun _ => sure_pure _
  cases op with
  | assign => exact word one
  | increase => exact word two
  | decrease => exact word three
  | scaleUp => exact word four
  | scaleDown => exact word five

theorem yields_outcome (depth : Nat)
    (yields : Yields G (effectWithin depth) (Effect.Legible (R := R) (Opens G) fun _ => True)) :
    Yields G (do
      let p ← number
      let e ← effectWithin depth
      pure (p, e)) (fun outcome : R × Effect R => True ∧ outcome.2.Legible (Opens G) fun _ => True) :=
  yields_bind yields_number fun _ _ => yields_then_pure _ yields fun _ known => ⟨trivial, known⟩

theorem yields_chance (depth : Nat)
    (yields : Yields G (effectWithin depth) (Effect.Legible (R := R) (Opens G) fun _ => True)) :
    Yields G (do
      let start ← cursor
      let outcomes ← parens do
        requires [.probabilisticEffects] (keyword "probabilistic")
        cut (many1 do
          let p ← number
          let e ← effectWithin depth
          pure (p, e))
      distribution start outcomes) (Effect.Legible (R := R) (Opens G) fun _ => True) := by
  refine yields_bind yields_cursor fun start _ => ?_
  have outcomes := yields_parens (yields_bind (yields_requires (G := G) [.probabilisticEffects]
    (yields_keyword (R := R) "probabilistic")) fun _ licensed => yields_weaken
    (yields_cut (yields_many_one (yields_outcome depth yields))) fun _ known => And.intro licensed.2 known)
  refine yields_bind outcomes fun found known c e next same done => ?_
  obtain ⟨rfl, accepted, rfl⟩ := distribution_done start c next found e done
  exact ⟨⟨known.1, known.2.1, accepted, (Effect.legible_outcomes _ _ found).mpr known.2.2⟩, same⟩

theorem chance_plain (depth : Nat) (c next : Cursor) (a : Atom) (e : Diagnostic R)
    (done : (atom : Parser R Atom) c = .done a next)
    (missed : (do
      let start ← cursor
      let outcomes ← parens do
        requires [.probabilisticEffects] (keyword "probabilistic")
        cut (many1 do
          let p ← number
          let e ← effectWithin depth
          pure (p, e))
      distribution start outcomes : Parser R (Effect R)) c = .miss e) : a.name ≠ "probabilistic" := by
  rcases bind_missed c e missed with ⟨e, nothing⟩ | ⟨start, here, found, missed⟩
  · cases nothing
  · cases found
    obtain ⟨e, missed⟩ := sure_bind_missed c e (fun _ => sure_distribution _ _) missed
    exact atom_plain c next a e done missed (fun _ => sure_cut) fun c e missed => ⟨e, requires_missed _ c e missed⟩

theorem yields_effect_within (depth : Nat) :
    Yields (R := R) G (effectWithin depth) (Effect.Legible (Opens G) fun _ => True) := by
  induction depth with
  | zero =>
      intro c q next same done
      cases done
  | succ depth ih =>
      refine yields_named _ fun c q next same done => ?_
      rcases either_done c next q done with here | ⟨-, done⟩
      · exact yields_as Effect.skip yields_empty_parens trivial c q next same here
      rcases either_done c next q done with here | ⟨⟨e₁, noAnd⟩, done⟩
      · refine yields_parens (yields_bind (yields_keyword "and") fun _ _ => yields_then_pure _
          (yields_cut (yields_many ih)) fun parts each => ?_) c q next same here
        split
        · trivial
        · next some => exact ⟨by simpa using some, (Effect.legible_list _ _ parts).mpr each⟩
      rcases either_done c next q done with here | ⟨⟨e₂, noForAll⟩, done⟩
      · exact yields_then_pure (fun pair => Effect.forAll pair.1 pair.2) (yields_quantified _ _ ih) (fun _ => id)
          c q next same here
      rcases either_done c next q done with here | ⟨⟨e₃, noWhen⟩, done⟩
      · exact yields_parens (yields_bind (yields_requires _ (yields_keyword "when")) fun _ licensed => yields_cut
          (yields_bind yields_query fun _ condition => yields_then_pure _ ih fun _ body => ⟨licensed.2, condition, body⟩))
          c q next same here
      rcases either_done c next q done with here | ⟨⟨e₄, noChance⟩, done⟩
      · exact yields_chance depth ih c q next same here
      rcases either_done c next q done with here | ⟨⟨e₅, noNot⟩, done⟩
      · exact yields_parens (yields_bind (yields_keyword "not") fun _ _ => yields_then_pure Effect.delete
          (yields_cut yields_atom) fun _ => id) c q next same here
      rcases either_done c next q done with here | ⟨⟨e₆, noAssign⟩, done⟩
      · exact yields_parens (yields_bind (yields_requires _ yields_assign_op) fun _ licensed =>
          yields_bind (yields_cut yields_atom) fun _ fluent => yields_then_pure _ (yields_cut yields_expression)
            fun _ value => ⟨licensed.2, fluent, value⟩) c q next same here
      obtain ⟨a, later, found, done⟩ := bind_done c next q done
      obtain ⟨rfl, rfl⟩ := pure_done _ q later next done
      obtain ⟨reads, kept⟩ := yields_atom c a later same found
      refine ⟨⟨reads, fun reserved => ?_⟩, kept⟩
      have gate (oneOf : RequirementSet) (w : String) : ∀ c e, requires oneOf (keyword (R := R) w) c = .miss e →
          ∃ e, (keyword w : Parser R Unit) c = .miss e := fun c e missed => ⟨e, requires_missed oneOf c e missed⟩
      have noOp (op : AssignOp) : a.name ≠ op.keyword :=
        atom_plain c later a e₆ found noAssign (fun _ => sure_bind sure_cut fun _ => sure_bind sure_cut fun _ => sure_pure _)
          fun c e missed => assign_op_missed op c e (requires_missed _ c e missed)
      simp only [Effect.words, List.mem_cons, List.not_mem_nil, or_false] at reserved
      rcases reserved with isAnd | isForAll | isWhen | isChance | isNot | is | is | is | is | is
      · exact atom_plain c later a e₁ found noAnd (fun _ => sure_bind sure_cut fun _ => sure_pure _)
          (fun _ e missed => ⟨e, missed⟩) isAnd
      · exact quantified_plain c later a e₂ found noForAll isForAll
      · exact atom_plain c later a e₃ found noWhen (fun _ => sure_cut) (gate _ _) isWhen
      · exact chance_plain depth c later a e₄ found noChance isChance
      · exact atom_plain c later a e₅ found noNot (fun _ => sure_bind sure_cut fun _ => sure_pure _)
          (fun _ e missed => ⟨e, missed⟩) isNot
      · exact noOp .assign is
      · exact noOp .increase is
      · exact noOp .decrease is
      · exact noOp .scaleUp is
      · exact noOp .scaleDown is

theorem yields_effect : Yields (R := R) G effect (Effect.Legible (Opens G) fun _ => True) :=
  fun c => yields_effect_within _ c

end Replan.Source
