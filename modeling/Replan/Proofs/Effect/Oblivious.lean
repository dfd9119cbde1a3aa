import Replan.Proofs.Effect.Expansion
import Replan.Proofs.Effect.Meaning
import Replan.Proofs.Query.Reading

set_option autoImplicit false

namespace Replan

def Vocabulary.unread (R : Type) : Vocabulary R := { fluent := fun a => ¬Effect.isTotal a.ground }

namespace Effect

variable {R : Type}

mutual
def Oblivious : Effect R → Prop
  | skip => True
  | add _ => True
  | delete _ => True
  | conj parts => ObliviousList parts
  | forAll _ body => Oblivious body
  | when condition body => condition.Within (Vocabulary.unread R) ∧ Oblivious body
  | assign _ fluent value => isTotal fluent.ground ∨ value.Within (Vocabulary.unread R)
  | probabilistic outcomes => ObliviousOutcomes outcomes

def ObliviousList : List (Effect R) → Prop
  | [] => True
  | e :: es => Oblivious e ∧ ObliviousList es

def ObliviousOutcomes : List (R × Effect R) → Prop
  | [] => True
  | (_, e) :: rest => Oblivious e ∧ ObliviousOutcomes rest
end

theorem oblivious_list (es : List (Effect R)) : ObliviousList es ↔ ∀ e ∈ es, Oblivious e := by
  induction es with
  | nil => simp [ObliviousList]
  | cons e es ih => simp [ObliviousList, ih]

theorem oblivious_outcomes (outcomes : List (R × Effect R)) :
    ObliviousOutcomes outcomes ↔ ∀ outcome ∈ outcomes, Oblivious outcome.2 := by
  induction outcomes with
  | nil => simp [ObliviousOutcomes]
  | cons outcome outcomes ih => rw [ObliviousOutcomes, ih, List.forall_mem_cons]

variable [Number R]

theorem oblivious_compositional : Compositional (Oblivious (R := R)) where
  skip := trivial
  conj := oblivious_list
  forAll _ _ oblivious := ⟨oblivious, fun _ => id⟩
  when condition _ oblivious :=
    ⟨oblivious.2, fun _ inside => ⟨Query.simplify_within _ (fun _ => id) condition oblivious.1, inside⟩⟩
  assign _ _ value oblivious := oblivious.imp_right (Query.simplify_within _ (fun _ => id) value)
  probabilistic outcomes oblivious :=
    ⟨(oblivious_outcomes outcomes).mp oblivious, fun others => (oblivious_outcomes others).mpr⟩

theorem oblivious_expands : Expands (Oblivious (R := R)) Oblivious where
  parts es := (oblivious_list es).mp
  choices outcomes := (oblivious_outcomes outcomes).mp
  certain _ oblivious _ := oblivious
  nothing := trivial
  joined es each := simplify_keeps oblivious_compositional _ ((oblivious_list es).mpr each)

end Effect

variable {R : Type} [Number R]

structure State.Twins (s t : State R) : Prop where
  facts : s.facts = t.facts
  world : s.world = t.world
  values : ∀ f, ¬Effect.isTotal f → s.value f = t.value f

section Twins

variable {s t : State R} (twins : s.Twins t)

include twins

theorem State.Twins.reads : s.ReadAlike (Vocabulary.unread R) t where
  facts a σs _ := by
    unfold State.holds
    rw [twins.facts]
  fluents a σs unread := twins.values _ fun total => unread ((Effect.is_total_bound σs a).mp total)
  universal vars _ := by rw [twins.world]
  existential vars _ := by rw [twins.world]

theorem Effect.oblivious_gathered (e : Effect R) (oblivious : e.Oblivious) (σs : List Substitution) :
    Changes.Agree isTotal (e.gathered s σs) (e.gathered t σs) := by
  induction e generalizing σs with
  | skip | add | delete | probabilistic => exact Changes.agree_refl _
  | conj parts ih =>
      rw [gathered, gathered, gathered_list, gathered_list]
      exact Changes.agree_join parts _ _ fun e member => ih e member ((oblivious_list parts).mp oblivious e member) σs
  | forAll vars body ih =>
      rw [gathered, gathered, twins.world]
      exact Changes.agree_join _ _ _ fun β _ => ih oblivious _
  | when condition body ih =>
      rw [gathered, gathered, condition.eval_alike _ s t twins.reads oblivious.1]
      split
      · exact ih oblivious.2 σs
      · exact Changes.agree_refl _
  | assign op fluent value =>
      rcases oblivious with total | unread
      · exact Changes.agree_trans (Changes.agree_symm (total_idle op fluent total value s σs))
          (total_idle op fluent total value t σs)
      · rw [gathered, gathered, value.eval_alike _ s t twins.reads unread]
        exact Changes.agree_refl _

end Twins

end Replan
