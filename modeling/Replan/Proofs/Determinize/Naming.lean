import Replan.Proofs.Determinize.AllOutcome
import Replan.Proofs.Determinize.Traces
import Replan.Proofs.Determinize.Wheel

set_option autoImplicit false

namespace Replan

open Results

variable {R : Type} [Number R]

structure Action.CommitsTo (b : Action R) (i : Nat) (probability : R) (v : Action R) : Prop where
  name : v.name = variantName b.name i
  origin : v.origin = some ⟨b.name, i, probability, b.parameters.length⟩
  parameters : ∃ more, v.parameters = b.parameters ++ more ∧ ∀ x ∈ more, Names.reserved x.name = true

def Strategy.variants (strategy : Strategy R) (b : Action R) : List (Action R) :=
  match strategy with
  | allOutcome => AllOutcome.variants b
  | singleOutcome criterion => SingleOutcome.variants criterion b
  | alphaCost pricing => AlphaCost.variants pricing b
  | hindsight method _ transformRewards => Hindsight.variants method transformRewards b

theorem Strategy.apply_actions (strategy : Strategy R) (d : Domain R) :
    (strategy.apply d).actions = d.actions.flatMap strategy.variants := by
  cases strategy with
  | allOutcome => exact classical_actions d _
  | singleOutcome criterion => exact classical_actions d _
  | alphaCost pricing => exact classical_actions d _
  | hindsight method size transformRewards => exact Hindsight.determinized_actions method transformRewards d

omit [Number R] in
theorem variant_commits (b : Action R) (i : Nat) (p : R) (e : Effect R) : b.CommitsTo i p (b.variant i p e) :=
  ⟨rfl, rfl, [], (List.append_nil _).symm, by simp⟩

theorem Hindsight.variant_at_commits (method : WheelMethod) (transformRewards : Bool) (b : Action R) (i : Nat)
    (outcome : R × Effect R) : b.CommitsTo i outcome.1 (variantAt method transformRewards b i outcome) := by
  obtain ⟨name, origin⟩ := variant_at_name method transformRewards b i outcome
  refine ⟨name, origin, ?_⟩
  unfold variantAt
  split
  · exact ⟨_, rfl, by simp [stepTerm, currentVariable, followingVariable, Names.reserved]⟩
  · exact ⟨[], (List.append_nil _).symm, by simp⟩

def Strategy.usesWheel : Strategy R → Bool
  | hindsight .. => true
  | _ => false

def Strategy.commit (strategy : Strategy R) (b : Action R) (i : Nat) (outcome : R × Effect R) : Action R :=
  match strategy with
  | allOutcome => b.variant i outcome.1 outcome.2.withoutRewards.simplify
  | singleOutcome _ => b.variant i outcome.1 outcome.2.withoutRewards.simplify
  | alphaCost pricing =>
      b.variant i outcome.1
        ((AlphaCost.priced pricing outcome.2).addCost (AlphaCost.likelihoodCost pricing outcome.1))
  | hindsight method _ transformRewards => Hindsight.variantAt method transformRewards b i outcome

theorem Strategy.commit_commits (strategy : Strategy R) (b : Action R) (i : Nat) (outcome : R × Effect R) :
    b.CommitsTo i outcome.1 (strategy.commit b i outcome) := by
  cases strategy with
  | hindsight method _ transformRewards => exact Hindsight.variant_at_commits method transformRewards b i outcome
  | allOutcome | singleOutcome | alphaCost => exact variant_commits b i _ _

theorem Strategy.commit_parameters (strategy : Strategy R) (wheelless : strategy.usesWheel = false) (b : Action R)
    (i : Nat) (outcome : R × Effect R) : (strategy.commit b i outcome).parameters = b.parameters := by
  cases strategy with
  | hindsight => cases wheelless
  | allOutcome | singleOutcome | alphaCost => rfl

theorem Strategy.commit_precondition (strategy : Strategy R) (wheelless : strategy.usesWheel = false) (b : Action R)
    (i : Nat) (outcome : R × Effect R) : (strategy.commit b i outcome).precondition = b.precondition := by
  cases strategy with
  | hindsight => cases wheelless
  | allOutcome | singleOutcome | alphaCost => rfl

theorem SingleOutcome.improve_among (criterion : Criterion) (best : (R × Effect R) × Nat)
    (candidates : List ((R × Effect R) × Nat)) : improve criterion best candidates ∈ best :: candidates := by
  induction candidates generalizing best with
  | nil => exact List.mem_cons_self
  | cons candidate rest ih =>
      rw [improve]
      split
      · exact List.mem_cons_of_mem best (ih candidate)
      · rcases List.mem_cons.mp (ih best) with same | later
        · exact List.mem_cons.mpr (.inl same)
        · exact List.mem_cons_of_mem best (List.mem_cons_of_mem candidate later)

theorem SingleOutcome.choose_at (criterion : Criterion) (outcomes : List (R × Effect R)) (outcome : R × Effect R)
    (i : Nat) (chosen : choose criterion outcomes = some (outcome, i)) : outcomes[i]? = some outcome := by
  have listed : (outcome, i) ∈ outcomes.zipIdx := by
    rw [choose] at chosen
    split at chosen
    · cases chosen
    · next first rest listed =>
        rw [listed, ← Option.some.inj chosen]
        exact improve_among criterion first rest
  exact List.mem_zipIdx_iff_getElem?.mp listed

theorem AlphaCost.mem_variants (pricing : Pricing R) (b v : Action R) :
    v ∈ variants pricing b ↔ ∃ i outcome, b.outcomes[i]? = some outcome ∧ isPure (priced pricing outcome.2) = false ∧
      v = (Strategy.alphaCost pricing).commit b i outcome := by
  rw [variants, List.mem_filterMap]
  constructor
  · rintro ⟨⟨outcome, i⟩, listed, kept⟩
    simp only [Option.ite_none_left_eq_some, Option.some.injEq, Bool.not_eq_true] at kept
    exact ⟨i, outcome, List.mem_zipIdx_iff_getElem?.mp listed, kept.1, kept.2.symm⟩
  · rintro ⟨i, outcome, found, impure, rfl⟩
    refine ⟨(outcome, i), List.mem_zipIdx_iff_getElem?.mpr found, ?_⟩
    simp only [impure, Bool.false_eq_true, if_false]
    rfl

theorem Strategy.mem_variants (strategy : Strategy R) (b v : Action R) (member : v ∈ strategy.variants b) :
    ∃ i outcome, b.outcomes[i]? = some outcome ∧ v = strategy.commit b i outcome := by
  cases strategy with
  | allOutcome =>
      obtain ⟨i, at_i⟩ := List.mem_iff_getElem?.mp member
      rw [variants, AllOutcome.variants_at] at at_i
      obtain ⟨outcome, found, rfl⟩ := Option.map_eq_some_iff.mp at_i
      exact ⟨i, outcome, found, rfl⟩
  | singleOutcome criterion =>
      rw [variants, SingleOutcome.variants] at member
      split at member
      · cases member
      · next p e i chosen =>
          exact ⟨i, (p, e), SingleOutcome.choose_at criterion _ _ i chosen, List.mem_singleton.mp member⟩
  | alphaCost pricing =>
      obtain ⟨i, outcome, found, -, made⟩ := (AlphaCost.mem_variants pricing b v).mp member
      exact ⟨i, outcome, found, made⟩
  | hindsight method size transformRewards =>
      obtain ⟨i, at_i⟩ := List.mem_iff_getElem?.mp member
      rw [variants, Hindsight.variants_at] at at_i
      obtain ⟨outcome, found, rfl⟩ := Option.map_eq_some_iff.mp at_i
      exact ⟨i, outcome, found, rfl⟩

theorem Strategy.variant_commits (strategy : Strategy R) (b v : Action R) (member : v ∈ strategy.variants b) :
    (∃ i p, b.CommitsTo i p v) ∧ (strategy.usesWheel = false → v.parameters = b.parameters) := by
  obtain ⟨i, outcome, -, rfl⟩ := strategy.mem_variants b v member
  exact ⟨⟨i, outcome.1, strategy.commit_commits b i outcome⟩,
    fun wheelless => strategy.commit_parameters wheelless b i outcome⟩

omit [Number R] in
theorem kept_names_distinct (base : String) (outcomes : List (R × Effect R))
    (keep : (R × Effect R) × Nat → Option (Action R))
    (named : ∀ outcome i v, keep (outcome, i) = some v → v.name = variantName base i) :
    ((outcomes.zipIdx.filterMap keep).map Action.name).Nodup := by
  have indices : (outcomes.zipIdx.map Prod.snd).Nodup := by
    rw [List.zipIdx_map_snd]
    exact List.nodup_range'
  rw [List.nodup_iff_pairwise_ne, List.pairwise_map] at indices ⊢
  refine indices.filterMap keep fun first second differ v kept w keptToo same => differ ?_
  rw [named first.1 first.2 v kept, named second.1 second.2 w keptToo] at same
  exact (variant_name_injective _ _ _ _ same).2

omit [Number R] in
theorem numbered_distinct (family : Action R → List (Action R)) (numbered : Numbered family) (b : Action R) :
    ((family b).map Action.name).Nodup := by
  rw [numbered b]
  exact List.nodup_range.map fun i j same => (variant_name_injective _ _ i j same).2

theorem Strategy.family_distinct (strategy : Strategy R) (b : Action R) :
    ((strategy.variants b).map Action.name).Nodup := by
  cases strategy with
  | allOutcome => exact numbered_distinct _ AllOutcome.variants_numbered b
  | singleOutcome criterion =>
      rw [variants, SingleOutcome.variants]
      split
      · exact List.nodup_nil
      · exact List.nodup_singleton _
  | alphaCost pricing =>
      refine kept_names_distinct b.name b.outcomes _ fun outcome i v kept => ?_
      simp only [Option.ite_none_left_eq_some, Option.some.injEq] at kept
      rw [← kept.2]
      rfl
  | hindsight method size transformRewards =>
      exact numbered_distinct _ (Hindsight.variants_numbered method transformRewards) b

theorem Strategy.names_distinct (strategy : Strategy R) (bs : List (Action R))
    (distinct : (bs.map Action.name).Nodup) : ((bs.flatMap strategy.variants).map Action.name).Nodup := by
  rw [List.map_flatMap, List.nodup_flatMap]
  refine ⟨fun b _ => strategy.family_distinct b, ?_⟩
  rw [List.nodup_iff_pairwise_ne, List.pairwise_map] at distinct
  refine distinct.imp fun {b c} differ name inFirst inSecond => differ ?_
  obtain ⟨v, ofFirst, rfl⟩ := List.mem_map.mp inFirst
  obtain ⟨w, ofSecond, same⟩ := List.mem_map.mp inSecond
  obtain ⟨⟨i, p, first⟩, -⟩ := strategy.variant_commits b v ofFirst
  obtain ⟨⟨j, q, second⟩, -⟩ := strategy.variant_commits c w ofSecond
  rw [first.name, second.name] at same
  exact (variant_name_injective _ _ j i same).1.symm

theorem trace_of_variant (t : Determinizer R) (versions : Versions R) (current : t.versions = .ok versions)
    (distinct : (versions.determinized.actions.map Action.name).Nodup) (b v : Action R)
    (listed : v ∈ versions.determinized.actions) (i : Nat) (p : R) (commits : b.CommitsTo i p v) (args : List String)
    (enough : b.parameters.length ≤ args.length) :
    t.trace ⟨v.name, args⟩ = .ok ⟨i, p, ⟨b.name, args.take b.parameters.length⟩⟩ := by
  have found : versions.determinized.action? v.name = some v := action_by_name _ distinct v listed
  rw [Determinizer.trace, current, ok_bind, found]
  simp only [commits.origin, if_neg (Nat.not_lt.mpr enough)]
  rfl

end Replan
