import Replan.Proofs.Effect.Structure
import Replan.Proofs.Query.Meaning
import Replan.Proofs.Results
import Replan.Proofs.State

set_option autoImplicit false

namespace Replan

open Results

namespace Changes

variable {R : Type}

def join (cs : List (Changes R)) : Changes R :=
  ⟨cs.flatMap adds, cs.flatMap deletes, cs.flatMap assignments⟩

theorem append_none (c : Changes R) : c.append none = c := by
  simp [append, none]

theorem none_append (c : Changes R) : none.append c = c := by
  simp [append, none]

theorem append_assoc (a b c : Changes R) : (a.append b).append c = a.append (b.append c) := by
  simp [append]

theorem join_nil : join ([] : List (Changes R)) = none := rfl

theorem join_cons (c : Changes R) (cs : List (Changes R)) : join (c :: cs) = c.append (join cs) := by
  simp [join, append]

theorem join_single (c : Changes R) : join [c] = c := by
  simp [join]

theorem join_append (cs ds : List (Changes R)) : join (cs ++ ds) = (join cs).append (join ds) := by
  simp [join, append]

theorem join_none (cs : List (Changes R)) (each : ∀ c ∈ cs, c = none) : join cs = none := by
  induction cs with
  | nil => rfl
  | cons c cs ih =>
      rw [join_cons, each c List.mem_cons_self, none_append]
      exact ih fun d member => each d (List.mem_cons_of_mem c member)

end Changes

namespace Effect

variable {R : Type}

theorem is_skip_iff (e : Effect R) : e.isSkip = true ↔ e = skip := by
  cases e <;> simp [isSkip]

theorem fold_gathered (bindings : List Substitution) (found : Changes R)
    (step : Substitution → Except (Error R) (Changes R)) (gather : Substitution → Changes R)
    (each : ∀ β, step β = .ok (gather β)) :
    (bindings.foldlM (fun changes β => do pure (changes.append (← step β))) found :
        Except (Error R) (Changes R)) =
      .ok (found.append (.join (bindings.map gather))) := by
  induction bindings generalizing found with
  | nil => rw [List.map_nil, Changes.join_nil, Changes.append_none]; rfl
  | cons β bindings ih =>
      rw [List.foldlM_cons, each β, List.map_cons, Changes.join_cons, ← Changes.append_assoc]
      exact ih (found.append (gather β))

variable [Number R]

mutual
def gathered (s : State R) (σs : List Substitution) : Effect R → Changes R
  | skip => .none
  | add fact => ⟨[(fact.bindAll σs).ground], [], []⟩
  | delete fact => ⟨[], [(fact.bindAll σs).ground], []⟩
  | conj parts => .join (gatheredList s σs parts)
  | forAll vars body =>
      .join ((s.world.bindings vars).map fun β => gathered s (σs.map (·.shadow vars) ++ [β]) body)
  | when condition body => if (condition.evalUnder s σs).asBool then gathered s σs body else .none
  | assign op fluent value =>
      ⟨[], [], [(op, (fluent.bindAll σs).ground, (value.evalUnder s σs).asNumber)]⟩
  | probabilistic _ => .none

def gatheredList (s : State R) (σs : List Substitution) : List (Effect R) → List (Changes R)
  | [] => []
  | e :: es => gathered s σs e :: gatheredList s σs es
end

theorem gathered_list (s : State R) (σs : List Substitution) (es : List (Effect R)) :
    gatheredList s σs es = es.map (gathered s σs) := by
  induction es with
  | nil => rfl
  | cons e es ih => rw [gatheredList, ih, List.map_cons]

theorem changes_list_gathered (s : State R) (σs : List Substitution) (es : List (Effect R))
    (each : ∀ e ∈ es, e.changesUnder s σs = .ok (e.gathered s σs)) :
    changesOfList s σs es = .ok (.join (es.map (gathered s σs))) := by
  induction es with
  | nil => rfl
  | cons e es ih =>
      have rest := ih fun f member => each f (List.mem_cons_of_mem e member)
      rw [changesOfList, each e List.mem_cons_self, ok_bind, rest, ok_bind, List.map_cons,
        Changes.join_cons]
      rfl

theorem changes_gathered (e : Effect R) (deterministic : e.hasProbabilistic = false) (s : State R)
    (σs : List Substitution) : e.changesUnder s σs = .ok (e.gathered s σs) := by
  induction e generalizing σs with
  | skip => rfl
  | add a => rfl
  | delete a => rfl
  | conj parts ih =>
      rw [has_probabilistic_conj, List.any_eq_false] at deterministic
      rw [changesUnder, gathered, gathered_list]
      exact changes_list_gathered s σs parts fun e member => ih e member (by simpa using deterministic e member) σs
  | forAll vars body ih =>
      rw [has_probabilistic_for_all] at deterministic
      rw [changesUnder, gathered, ← Changes.none_append (.join _)]
      exact fold_gathered _ _ _ _ fun β => ih deterministic _
  | when condition body ih =>
      rw [has_probabilistic_when] at deterministic
      rw [changesUnder, gathered, ih deterministic]
      split <;> rfl
  | assign op fluent value => rfl
  | probabilistic outcomes _ => simp [has_probabilistic_choice] at deterministic

theorem apply_gathered (e : Effect R) (deterministic : e.hasProbabilistic = false) (s : State R) :
    e.apply s = .ok ((e.gathered s []).applyTo s) := by
  rw [apply, changes_gathered e deterministic]
  rfl

theorem gathered_bind (e : Effect R) (s : State R) (σ : Substitution) (σs : List Substitution) :
    (e.bind σ).gathered s σs = e.gathered s (σ :: σs) := by
  induction e generalizing σ σs with
  | skip => rfl
  | add a => rfl
  | delete a => rfl
  | conj parts ih =>
      rw [bind, bind_list, gathered, gathered, gathered_list, gathered_list, List.map_map]
      exact congrArg _ (List.map_congr_left fun e member => ih e member σ σs)
  | forAll vars body ih =>
      rw [bind, gathered, gathered]
      simp only [ih, List.map_cons, List.cons_append]
  | when condition body ih => rw [bind, gathered, gathered, ih, Query.eval_bind]
  | assign op fluent value => rw [bind, gathered, gathered, Query.eval_bind]; rfl
  | probabilistic outcomes _ => rfl

theorem conjuncts_gathered (s : State R) (σs : List Substitution) (e : Effect R) :
    Changes.join ((conjuncts e).map (gathered s σs)) = e.gathered s σs := by
  cases e with
  | skip => rfl
  | conj parts => rw [conjuncts, gathered, gathered_list]
  | _ => simp only [conjuncts, List.map_singleton, Changes.join_single]

theorem conjoin_gathered (s : State R) (σs : List Substitution) (parts : List (Effect R)) :
    (conjoin parts).gathered s σs = .join (parts.map (gathered s σs)) := by
  have flat : Changes.join ((parts.flatMap conjuncts).map (gathered s σs)) =
      .join (parts.map (gathered s σs)) := by
    induction parts with
    | nil => rfl
    | cons e parts ih =>
        rw [List.flatMap_cons, List.map_append, Changes.join_append, conjuncts_gathered, ih, List.map_cons,
          Changes.join_cons]
  rw [← flat]
  unfold conjoin
  rcases parts.flatMap conjuncts with _ | ⟨e, _ | ⟨f, rest⟩⟩
  · rfl
  · rw [List.map_singleton, Changes.join_single]
  · rw [gathered, gathered_list]

theorem quantify_gathered (s : State R) (σs : List Substitution) (vars : List Term) (body : Effect R) :
    (quantify vars body).gathered s σs = (forAll vars body).gathered s σs := by
  by_cases isSkip : body.isSkip = true
  · rw [quantify, if_pos isSkip, (is_skip_iff body).mp isSkip, gathered, gathered, Changes.join_none]
    intro c member
    obtain ⟨β, _, rfl⟩ := List.mem_map.mp member
    rfl
  · rw [quantify, if_neg isSkip]

theorem guard_gathered (s : State R) (σs : List Substitution) (condition : Query R) (body : Effect R) :
    (guard condition body).gathered s σs = (when condition body).gathered s σs := by
  by_cases nothing : (body.isSkip || condition.isFalse) = true
  · rw [guard, if_pos nothing, gathered, gathered]
    rcases Bool.or_eq_true _ _ ▸ nothing with isSkip | isFalse
    · rw [(is_skip_iff body).mp isSkip, gathered, ite_self]
    · rw [Query.is_false_truth condition isFalse]
      rfl
  · by_cases isAlways : condition.isAlways = true
    · rw [guard, if_neg nothing, if_pos isAlways, gathered, Query.is_always_truth condition isAlways]
      rfl
    · rw [guard, if_neg nothing, if_neg isAlways]

end Effect

end Replan
