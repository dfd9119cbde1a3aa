import Replan.Proofs.Effect.Vocabulary
import Replan.Proofs.Names

set_option autoImplicit false

namespace Replan

open Names

namespace Substitution

theorem lookup_cons (pair : String × String) (rest : Substitution) (wanted : String) :
    lookup? (pair :: rest) wanted = if pair.1 = wanted then some pair.2 else lookup? rest wanted := by
  by_cases same : pair.1 = wanted
  · rw [lookup?, List.find?_cons_of_pos (by simpa using same), if_pos same]
    rfl
  · rw [lookup?, List.find?_cons_of_neg (by simpa using same), if_neg same]
    rfl

theorem lookup_insert (σ : Substitution) (key value wanted : String) :
    (σ.insert key value).lookup? wanted = if key = wanted then some value else σ.lookup? wanted := by
  induction σ with
  | nil => exact lookup_cons (key, value) [] wanted
  | cons pair rest ih =>
      rw [insert]
      split
      · next replaced =>
          rw [lookup_cons, lookup_cons, replaced]
          by_cases same : key = wanted
          · rw [if_pos same, if_pos same]
          · rw [if_neg same, if_neg same, if_neg same]
      · next other =>
          rw [lookup_cons, lookup_cons, ih]
          by_cases same : key = wanted
          · have differs : pair.1 ≠ wanted := fun reached => other (reached.trans same.symm)
            rw [if_neg differs, if_pos same, if_pos same]
          · rw [if_neg same, if_neg same]

theorem lookup_shadow (vars : List Term) (σ : Substitution) (wanted : String) :
    (σ.shadow vars).lookup? wanted =
      if (vars.any fun v => v.name == wanted) = true then none else σ.lookup? wanted := by
  induction σ with
  | nil =>
      rw [shadow, List.filter_nil]
      exact (ite_self _).symm
  | cons pair rest ih =>
      rw [shadow] at ih
      rw [shadow, List.filter_cons, lookup_cons]
      by_cases hidden : (vars.any fun v => v.name == pair.1) = true
      · rw [hidden, Bool.not_true, if_neg Bool.false_ne_true, ih]
        by_cases same : pair.1 = wanted
        · rw [← same, if_pos hidden, if_pos hidden]
        · rw [if_neg same]
      · rw [(Bool.not_eq_true _).mp hidden, Bool.not_false, if_pos rfl, lookup_cons, ih]
        by_cases same : pair.1 = wanted
        · rw [← same, if_pos rfl, if_neg hidden, if_pos rfl]
        · rw [if_neg same, if_neg same]

theorem lookup_of_pairs_append (pairs : List (String × String)) (name value wanted : String) :
    (ofPairs (pairs ++ [(name, value)])).lookup? wanted =
      if name = wanted then some value else (ofPairs pairs).lookup? wanted := by
  rw [ofPairs, List.foldl_append]
  exact lookup_insert _ name value wanted

def Agree (σ τ : Substitution) : Prop :=
  ∀ name, reserved name = false → σ.lookup? name = τ.lookup? name

theorem agree_shadow (vars : List Term) {σ τ : Substitution} (agree : Agree σ τ) :
    Agree (σ.shadow vars) (τ.shadow vars) := by
  intro name plain
  rw [lookup_shadow, lookup_shadow, agree name plain]

end Substitution

def Vocabulary.unreserved (R : Type) : Vocabulary R where
  fact a := reserved a.name = false ∧ ∀ x ∈ a.args, reserved x.name = false
  fluent a := ∀ x ∈ a.args, reserved x.name = false
  forAll vars := ∀ x ∈ vars, reserved x.name = false
  forSome vars := ∀ x ∈ vars, reserved x.name = false
  assigned _ a := ∀ x ∈ a.args, reserved x.name = false

theorem Atom.bind_agree {σ τ : Substitution} (agree : σ.Agree τ) (a : Atom)
    (plain : ∀ x ∈ a.args, reserved x.name = false) : a.bind σ = a.bind τ := by
  have terms : a.args.map (Term.bind σ) = a.args.map (Term.bind τ) := by
    refine List.map_congr_left fun x member => ?_
    rw [Term.bind, Term.bind, agree x.name (plain x member)]
  rw [bind, bind, terms]

variable {R : Type}

theorem Query.bind_agree {σ τ : Substitution} (agree : σ.Agree τ) (q : Query R)
    (within : q.Within (Vocabulary.unreserved R)) : q.bind σ = q.bind τ := by
  induction q generalizing σ τ with
  | always => rfl
  | fact a => rw [bind, bind, Atom.bind_agree agree a within.2]
  | fluent a => rw [bind, bind, Atom.bind_agree agree a within]
  | constant x => rfl
  | arithmetic op left right leftIH rightIH =>
      rw [bind, bind, leftIH agree within.1.2, rightIH agree within.2.2]
  | comparison op left right leftIH rightIH =>
      rw [bind, bind, leftIH agree within.1.2, rightIH agree within.2.2]
  | conj parts ih =>
      rw [bind, bind, bind_list, bind_list]
      exact congrArg conj (List.map_congr_left fun q member =>
        ih q member agree ((within_list _ parts).mp within q member))
  | disj parts ih =>
      rw [bind, bind, bind_list, bind_list]
      exact congrArg disj (List.map_congr_left fun q member =>
        ih q member agree ((within_list _ parts).mp within q member))
  | neg body ih => rw [bind, bind, ih agree within]
  | imply premise conclusion premiseIH conclusionIH =>
      rw [bind, bind, premiseIH agree within.1, conclusionIH agree within.2]
  | forAll vars body ih => rw [bind, bind, ih (Substitution.agree_shadow vars agree) within.2]
  | forSome vars body ih => rw [bind, bind, ih (Substitution.agree_shadow vars agree) within.2]

theorem Effect.bind_agree {σ τ : Substitution} (agree : σ.Agree τ) (e : Effect R)
    (within : e.Within (Vocabulary.unreserved R)) : e.bind σ = e.bind τ := by
  induction e generalizing σ τ with
  | skip => rfl
  | add a => rw [bind, bind, Atom.bind_agree agree a within.2]
  | delete a => rw [bind, bind, Atom.bind_agree agree a within.2]
  | conj parts ih =>
      rw [bind, bind, bind_list, bind_list]
      exact congrArg conj (List.map_congr_left fun e member =>
        ih e member agree ((within_list _ parts).mp within e member))
  | forAll vars body ih => rw [bind, bind, ih (Substitution.agree_shadow vars agree) within.2]
  | when condition body ih => rw [bind, bind, Query.bind_agree agree condition within.1, ih agree within.2]
  | assign op fluent value =>
      rw [bind, bind, Atom.bind_agree agree fluent within.1, Query.bind_agree agree value within.2.2]
  | probabilistic outcomes ih =>
      rw [bind, bind, bind_outcomes, bind_outcomes]
      refine congrArg probabilistic (List.map_congr_left fun outcome member => ?_)
      rw [mapOutcome, mapOutcome, ih outcome member agree ((within_outcomes _ outcomes).mp within.2 outcome member)]

end Replan
