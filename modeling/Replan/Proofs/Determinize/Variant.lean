import Mathlib.Data.List.Nodup
import Replan.Determinizer
import Replan.Proofs.Determinize.Preprocess
import Replan.Proofs.Effect.Meaning
import Replan.Proofs.Names

set_option autoImplicit false

namespace Replan

open Results

def variantName (base : String) (i : Nat) : String := base ++ "_o" ++ toString i

theorem variant_name_injective (a b : String) (i j : Nat) (same : variantName a i = variantName b j) :
    a = b ∧ i = j := by
  have spelled (base : String) (n : Nat) :
      (variantName base n).toList = (base.toList ++ ['_']) ++ 'o' :: (toString n).toList := by
    simp [variantName]
  have letters : (variantName a i).toList = (variantName b j).toList := by rw [same]
  rw [spelled, spelled] at letters
  obtain ⟨stems, _, numbers⟩ := Names.numbered_injective _ _ _ _ i j (by decide) (by decide) letters
  exact ⟨String.toList_inj.mp (List.append_inj' stems rfl).1, numbers⟩

section Families

variable {R : Type}

-- Variants that stand in the order of the outcomes they commit to, and are named after these.
def Numbered (family : Action R → List (Action R)) : Prop :=
  ∀ b, (family b).map Action.name = (List.range (family b).length).map (variantName b.name)

theorem numbered_at (family : Action R → List (Action R)) (numbered : Numbered family) (b : Action R)
    (i : Nat) (v : Action R) (at_i : (family b)[i]? = some v) : v.name = variantName b.name i := by
  have bound : i < (family b).length := (List.getElem?_eq_some_iff.mp at_i).1
  have entry := congrArg (·[i]?) (numbered b)
  rw [List.getElem?_map, at_i, List.getElem?_map, List.getElem?_range bound] at entry
  simpa using entry

theorem variant_names_distinct (family : Action R → List (Action R)) (numbered : Numbered family)
    (bs : List (Action R)) (distinct : (bs.map Action.name).Nodup) :
    ((bs.flatMap family).map Action.name).Nodup := by
  rw [List.map_flatMap, List.nodup_flatMap]
  constructor
  · intro b _
    rw [numbered b]
    exact List.nodup_range.map fun i j same => (variant_name_injective _ _ i j same).2
  · rw [List.nodup_iff_pairwise_ne, List.pairwise_map] at distinct
    refine distinct.imp fun {b c} differ name inFirst inSecond => differ ?_
    simp only [numbered b, numbered c] at inFirst inSecond
    obtain ⟨i, _, rfl⟩ := List.mem_map.mp inFirst
    obtain ⟨j, _, same⟩ := List.mem_map.mp inSecond
    exact (variant_name_injective _ _ i j same.symm).1

theorem filter_by_name (vs : List (Action R)) (distinct : (vs.map Action.name).Nodup) (v : Action R)
    (member : v ∈ vs) : vs.filter (fun w => w.name == v.name) = [v] := by
  refine Sorted.filter_single vs (List.Nodup.of_map _ distinct) _ v (fun w known => ?_) member
  rw [beq_iff_eq]
  exact ⟨fun same => List.inj_on_of_nodup_map distinct known member same, fun same => by rw [same]⟩

theorem action_by_name (vs : List (Action R)) (distinct : (vs.map Action.name).Nodup) (v : Action R)
    (member : v ∈ vs) : vs.find? (fun w => w.name == v.name) = some v := by
  rw [← List.head?_filter, filter_by_name vs distinct v member]
  rfl

theorem only_variant (family : Action R → List (Action R)) (numbered : Numbered family)
    (bs : List (Action R)) (distinct : (bs.map Action.name).Nodup) (b : Action R) (member : b ∈ bs)
    (i : Nat) (v : Action R) (at_i : (family b)[i]? = some v) :
    (bs.flatMap family).filter (fun w => w.name == variantName b.name i) = [v] := by
  have named := numbered_at family numbered b i v at_i
  have listed : v ∈ bs.flatMap family := List.mem_flatMap.mpr ⟨b, member, List.mem_of_getElem? at_i⟩
  rw [← named]
  exact filter_by_name _ (variant_names_distinct family numbered bs distinct) v listed

theorem find_variant (family : Action R → List (Action R)) (numbered : Numbered family)
    (bs : List (Action R)) (distinct : (bs.map Action.name).Nodup) (b : Action R) (member : b ∈ bs) (i : Nat) :
    (bs.flatMap family).find? (fun w => w.name == variantName b.name i) = (family b)[i]? := by
  cases at_i : (family b)[i]? with
  | some v =>
      rw [← List.head?_filter, only_variant family numbered bs distinct b member i v at_i]
      rfl
  | none =>
      refine List.find?_eq_none.mpr fun w listed named => ?_
      obtain ⟨c, known, inFamily⟩ := List.mem_flatMap.mp listed
      obtain ⟨k, at_k⟩ := List.mem_iff_getElem?.mp inFamily
      have ownName := numbered_at family numbered c k w at_k
      obtain ⟨sameBase, rfl⟩ := variant_name_injective _ _ _ _ (ownName.symm.trans (beq_iff_eq.mp named))
      obtain rfl := List.inj_on_of_nodup_map distinct known member sameBase
      rw [at_i] at at_k
      cases at_k

theorem zipped_at {α β : Type} (f : Nat → α → β) (xs : List α) (i : Nat) :
    (xs.zipIdx.map fun (x, i) => f i x)[i]? = xs[i]?.map (f i) := by
  rw [List.getElem?_map, List.getElem?_zipIdx, Option.map_map]
  simp only [Nat.zero_add]
  rfl

theorem zipped_numbered [Number R] (family : Action R → List (Action R))
    (f : Action R → Nat → R × Effect R → Action R)
    (named : ∀ b i outcome, (f b i outcome).name = variantName b.name i)
    (shape : ∀ b, family b = b.outcomes.zipIdx.map fun (outcome, i) => f b i outcome) :
    Numbered family := by
  intro b
  rw [shape]
  refine List.ext_getElem? fun i => ?_
  rw [List.getElem?_map, zipped_at, List.getElem?_map, List.length_map, List.length_zipIdx]
  by_cases bound : i < b.outcomes.length
  · rw [List.getElem?_eq_getElem bound, List.getElem?_range bound]
    exact congrArg some (named b i _)
  · have beyond := Nat.le_of_not_lt bound
    rw [List.getElem?_eq_none beyond, List.getElem?_eq_none (by simpa using beyond)]
    rfl

end Families

namespace Effect

variable {R : Type} [Number R]

-- A single outcome that is as good as certain is recorded as certain.
def recorded (outcomes : List (R × Effect R)) (p : R) : R :=
  if outcomes.length = 1 ∧ Number.le (Number.one - Number.epsilon) p = true then Number.one else p

theorem numbered_at_index (outcomes : List (R × Effect R)) (i : Nat) (p : R) (e : Effect R)
    (at_i : outcomes[i]? = some (p, e)) : (numbered outcomes)[i]? = some (recorded outcomes p, e) := by
  rcases outcomes with _ | ⟨⟨q, f⟩, _ | ⟨other, rest⟩⟩
  · cases at_i
  · cases i with
    | succ i => cases at_i
    | zero =>
        cases at_i
        by_cases certain : Number.le (Number.one - Number.epsilon) p = true
        · simp [numbered, recorded, certain]
        · simp [numbered, recorded, certain]
  · have several : ¬((q, f) :: other :: rest).length = 1 := by simp
    rw [recorded, if_neg fun both => several both.1]
    exact at_i

theorem numbered_length (first : R × Effect R) (rest : List (R × Effect R)) :
    (numbered (first :: rest)).length = (first :: rest).length := by
  rcases rest with _ | ⟨other, rest⟩
  · rw [numbered]
    split <;> rfl
  · rfl

end Effect

section Versions

variable {R : Type}

theorem classical_actions (d : Domain R) (actions : List (Action R)) :
    (d.classical actions).actions = actions := by
  unfold Domain.classical
  simp only
  split <;> split <;> rfl

theorem classical_keeps (d : Domain R) (actions : List (Action R)) :
    (d.classical actions).types = d.types ∧ (d.classical actions).constants = d.constants := by
  unfold Domain.classical
  simp only
  split <;> split <;> exact ⟨rfl, rfl⟩

variable [Number R]

theorem latest_classical (d : Domain R) (values : List (Ground × R)) (f : Ground) (seen : ¬Effect.isTotal f) (x : R) :
    Sorted.latest f x (Determinizer.classicalValues d values) = Sorted.latest f x values := by
  have notReward : rewardAtom.ground ≠ f := fun same => seen (Or.inl same.symm)
  have notCost : totalCostAtom.ground ≠ f := fun same => seen (Or.inr same.symm)
  unfold Determinizer.classicalValues
  simp only
  split
  · rw [Sorted.latest_put _ f notCost, Sorted.latest_drop _ f notReward]
  · exact Sorted.latest_drop _ f notReward x values

theorem set_domain_ok_iff (t t' : Determinizer R) (d : Domain R) :
    t.setDomain d = .ok t' ↔ ∃ d', d.preprocess = .ok d' ∧
      t' = { t with current := some ⟨d, d', t.strategy.apply d'⟩ } := by
  simp only [Determinizer.setDomain, Versions.ofDomain, bind_ok_iff, pure_ok_iff]
  constructor
  · intro set
    obtain ⟨_, ⟨d', preprocessed, rfl⟩, rfl⟩ := set
    exact ⟨d', preprocessed, rfl⟩
  · intro found
    obtain ⟨d', preprocessed, rfl⟩ := found
    exact ⟨_, ⟨d', preprocessed, rfl⟩, rfl⟩

end Versions

end Replan
