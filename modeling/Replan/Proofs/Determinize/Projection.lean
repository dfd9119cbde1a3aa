import Mathlib.Data.List.Sort
import Replan.Proofs.Determinize.Wheel
import Replan.Proofs.Query.Reading
import Replan.Proofs.Run
import Replan.Proofs.Universe

set_option autoImplicit false

namespace Replan.Hindsight

open Names Effect

variable {R : Type}

def Ranged (x : Term) : Prop := ∃ kind, x.kind = some kind ∧ kind ≠ "object" ∧ reserved kind = false

def steady (R : Type) : Vocabulary R where
  fluent a := ¬isTotal a.ground
  forAll vars := ∀ x ∈ vars, Ranged x
  forSome vars := ∀ x ∈ vars, Ranged x

def apart (R : Type) : Vocabulary R := (Vocabulary.unreserved R).both (steady R)

def simplifiable (R : Type) (world : Universe) : Vocabulary R :=
  (Vocabulary.numericOperands R).both (Vocabulary.populated R world)

variable [Number R]

structure Projects (w b : State R) : Prop where
  ordered : w.facts.Pairwise (· < ·)
  facts : b.facts = w.facts.filter fun f => !reserved f.name
  values : ∀ f, ¬isTotal f → w.value f = b.value f
  ranges : ∀ kind, kind ≠ "object" → reserved kind = false →
    w.world.objectsOf (some kind) = b.world.objectsOf (some kind)

section Reading

variable {w b : State R} (projects : Projects w b)

include projects

theorem mem_projected (f : Ground) : f ∈ b.facts ↔ f ∈ w.facts ∧ reserved f.name = false := by
  rw [projects.facts, List.mem_filter, Bool.not_eq_true']

theorem holds_projected (f : Ground) (plain : reserved f.name = false) : w.holds f = b.holds f := by
  unfold State.holds
  split
  · rfl
  · rw [Bool.eq_iff_iff, List.contains_iff_mem, List.contains_iff_mem, mem_projected projects, and_iff_left plain]

theorem bindings_projected (vars : List Term) (ranged : ∀ x ∈ vars, Ranged x) :
    w.world.bindings vars = b.world.bindings vars := by
  refine Universe.bindings_congr _ _ vars fun x member => ?_
  obtain ⟨kind, typed, below, plain⟩ := ranged x member
  rw [typed]
  exact projects.ranges kind below plain

theorem reads_projected : w.ReadAlike (apart R) b where
  facts a σs within := by
    have name : (a.bindAll σs).ground.name = a.name := Atom.bind_all_name σs a
    exact holds_projected projects _ (name ▸ within.1.1)
  fluents a σs within := projects.values _ fun total => within.2 ((is_total_bound σs a).mp total)
  universal vars within := bindings_projected projects vars within.2
  existential vars within := bindings_projected projects vars within.2

theorem eval_projected (q : Query R) (within : q.Within (apart R)) (σs : List Substitution) :
    q.evalUnder w σs = q.evalUnder b σs :=
  q.eval_alike (apart R) w b (reads_projected projects) within σs

theorem gathered_projected (e : Effect R) (within : e.Within (apart R)) (σs : List Substitution) :
    e.gathered w σs = e.gathered b σs := by
  induction e generalizing σs with
  | skip | add | delete | probabilistic => rfl
  | conj parts ih =>
      rw [gathered, gathered, gathered_list, gathered_list]
      exact congrArg Changes.join (List.map_congr_left fun e member =>
        ih e member ((within_list _ parts).mp within e member) σs)
  | forAll vars body ih =>
      rw [gathered, gathered, bindings_projected projects vars within.1.2]
      simp only [ih within.2]
  | when condition body ih =>
      rw [gathered, gathered, eval_projected projects condition within.1, ih within.2]
  | assign op fluent value =>
      rw [gathered, gathered, eval_projected projects value within.2.2]

end Reading

-- The same changes to everything but the wheel and the totals.
structure Alike (wheel base : Changes R) : Prop where
  adds : ∀ f, reserved f.name = false → (f ∈ wheel.adds ↔ f ∈ base.adds)
  deletes : ∀ f, reserved f.name = false → (f ∈ wheel.deletes ↔ f ∈ base.deletes)
  values : ∀ f, ¬isTotal f → ∀ x, Changes.settle f x wheel.assignments = Changes.settle f x base.assignments

theorem alike_agree (c c' : Changes R) (agree : Changes.Agree isTotal c c') : Alike c c' :=
  ⟨fun f _ => by rw [agree.adds], fun f _ => by rw [agree.deletes], agree.values⟩

theorem alike_turned (c c' : Changes R) (token now next : String) (tokenReserved : reserved token = true)
    (alike : Alike c c') : Alike (c.append ⟨[⟨token, [next]⟩], [⟨token, [now]⟩], []⟩) c' := by
  have other (f : Ground) (plain : reserved f.name = false) (step : String) : f ∉ [(⟨token, [step]⟩ : Ground)] := by
    intro member
    rw [List.mem_singleton.mp member, tokenReserved] at plain
    cases plain
  refine ⟨fun f plain => ?_, fun f plain => ?_, ?_⟩
  · rw [Changes.append, List.mem_append, or_iff_left (other f plain next), alike.adds f plain]
  · rw [Changes.append, List.mem_append, or_iff_left (other f plain now), alike.deletes f plain]
  · rw [Changes.append, List.append_nil]
    exact alike.values

theorem projects_after (w w' b b' : State R) (projects : Projects w b) (c c' : Changes R) (leads : c.Lead w w')
    (leads' : c'.Lead b b') (alike : Alike c c')
    (plain : ∀ f, reserved f.name = true → f ∉ c'.adds ∧ f ∉ c'.deletes) : Projects w' b' := by
  have ordered : w'.facts.Pairwise (· < ·) := by
    rw [leads.facts]
    exact c.revise_ordered w.facts projects.ordered
  refine ⟨ordered, ?_, fun f seen => ?_, fun kind below unreserved => ?_⟩
  · have orderedAfter : b'.facts.Pairwise (· < ·) := by
      rw [leads'.facts, projects.facts]
      exact c'.revise_ordered _ (projects.ordered.filter _)
    refine orderedAfter.eq_of_mem_iff (ordered.filter _) fun f => ?_
    rw [leads'.facts, leads.facts, List.mem_filter, Bool.not_eq_true', Changes.mem_revise, Changes.mem_revise,
      mem_projected projects]
    cases isReserved : reserved f.name with
    | true =>
        obtain ⟨notAdded, notDeleted⟩ := plain f isReserved
        simp [notAdded]
    | false =>
        rw [alike.adds f isReserved, alike.deletes f isReserved]
        simp
  · have notReward : f ≠ rewardAtom.ground := fun reward => seen (Or.inl reward)
    rw [leads.values f notReward, leads'.values f notReward, alike.values f seen, projects.values f seen]
  · rw [leads.world, leads'.world]
    exact projects.ranges kind below unreserved

theorem settle_rewards_apart (transformRewards : Bool) (e : Effect R) (free : e.Within (apart R).certain) :
    (settleRewards transformRewards e).Within (apart R).certain := by
  have costs (op : AssignOp) : (apart R).certain.assigned op totalCostAtom :=
    ⟨by simp [Vocabulary.unreserved, totalCostAtom], trivial⟩
  exact settle_rewards_within _ costs (fun _ => id) transformRewards e free

section Settled

variable {K : Type} [ExactNumber K]

theorem simplifiable_kept (world : Universe) (q : Query K) (operand : (simplifiable K world).operand q) :
    (simplifiable K world).operand q.simplify :=
  ⟨q.simplify_stays_numeric operand.1, trivial⟩

theorem settle_rewards_gathered (transformRewards : Bool) (e : Effect K) (s : State K)
    (formed : e.Within (Vocabulary.numericOperands K).certain)
    (inhabited : e.Within (Vocabulary.populated K s.world)) (σs : List Substitution) :
    Changes.Agree isTotal ((settleRewards transformRewards e).gathered s σs) (e.gathered s σs) := by
  have costs (op : AssignOp) : (Vocabulary.numericOperands K).certain.assigned op totalCostAtom := trivial
  cases transformRewards with
  | true =>
      exact rewritten_gathered isTotal e e.rewardsToCosts s σs (rewards_to_costs_gathered e s σs)
        (rewards_to_costs_within _ (costs _) (costs _) e formed) (rewards_to_costs_within _ trivial trivial e inhabited)
  | false =>
      exact rewritten_gathered isTotal e e.withoutRewards s σs
        (Changes.agree_hiding isTotal (fun _ => Or.inl) (without_rewards_gathered e s σs))
        (unless_of_within _ _ e formed) (unless_of_within _ _ e inhabited)

end Settled

end Replan.Hindsight
