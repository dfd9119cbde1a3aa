import Mathlib.Data.List.Induction
import Mathlib.Data.List.Nodup
import Replan.Agent.Hindsight
import Replan.Proofs.Number.Ranking

set_option autoImplicit false

namespace Replan

namespace Plan

theorem prefix_common_iff (start a b : Plan) : start <+: common a b ↔ start <+: a ∧ start <+: b := by
  induction a generalizing start b with
  | nil =>
      have none : common [] b = [] := by rw [common]; simp
      rw [none, List.prefix_nil, iff_self_and]
      rintro rfl
      exact List.nil_prefix
  | cons x a ih =>
      cases start with
      | nil => simp
      | cons step start =>
          cases b with
          | nil => simp [common]
          | cons y b =>
              rw [common]
              split
              · next same =>
                  subst same
                  rw [List.cons_prefix_cons, List.cons_prefix_cons, List.cons_prefix_cons, ih, ← and_and_left]
              · next differs =>
                  refine iff_of_false (by simp) fun ⟨first, second⟩ => differs ?_
                  exact (List.cons_prefix_cons.mp first).1.symm.trans (List.cons_prefix_cons.mp second).1

theorem prefix_common_of_iff (start : Plan) (plans : List Plan) (some : plans ≠ []) :
    start <+: commonOf plans ↔ ∀ plan ∈ plans, start <+: plan := by
  cases plans with
  | nil => exact absurd rfl some
  | cons first rest =>
      rw [commonOf, List.forall_mem_cons]
      clear some
      induction rest generalizing first with
      | nil => simp
      | cons next rest ih => rw [List.foldl_cons, ih, prefix_common_iff, List.forall_mem_cons, and_assoc]

def Begins (action : Ground) (plan : Plan) : Prop := plan.head? = some action

instance (action : Ground) : DecidablePred (Begins action) :=
  fun plan => inferInstanceAs (Decidable (plan.head? = some action))

theorem begins_iff (action : Ground) (plan : Plan) : Begins action plan ↔ [action] <+: plan := by
  cases plan with
  | nil => simp [Begins]
  | cons step rest => simp [Begins, eq_comm]

theorem common_of_begins (action : Ground) (plans : List Plan) (some : plans ≠ [])
    (each : ∀ plan ∈ plans, Begins action plan) : action :: (commonOf plans).drop 1 = commonOf plans := by
  have shared := (prefix_common_of_iff [action] plans some).mpr fun plan member =>
    (begins_iff action plan).mp (each plan member)
  obtain ⟨rest, split⟩ := shared
  rw [← split]
  rfl

def firstActions (plans : List Plan) : List Ground := (plans.filterMap List.head?).eraseDups

theorem first_actions_cover (plans : List Plan) (action : Ground) :
    action ∈ firstActions plans ↔ ∃ plan ∈ plans, Begins action plan := by
  rw [firstActions, List.mem_eraseDups, List.mem_filterMap]
  rfl

theorem first_actions_empty (plans : List Plan) : firstActions (plans ++ [[]]) = firstActions plans := by
  rw [firstActions, List.filterMap_append, List.filterMap_cons_none List.head?_nil, List.filterMap_nil, List.append_nil]
  rfl

theorem first_actions_another (plans : List Plan) (action : Ground) (rest : Plan) :
    firstActions (plans ++ [action :: rest]) =
      if action ∈ firstActions plans then firstActions plans else firstActions plans ++ [action] := by
  unfold firstActions
  rw [List.filterMap_append, List.filterMap_cons_some List.head?_cons, List.filterMap_nil, List.eraseDups_append,
    List.removeAll]
  generalize plans.filterMap List.head? = actions
  by_cases known : action ∈ actions
  · simp [known]
  · simp [known, List.eraseDups_cons]

theorem first_actions_distinct (plans : List Plan) : (firstActions plans).Nodup := by
  induction plans using List.reverseRecOn with
  | nil => exact List.nodup_nil
  | append_singleton plans plan ih =>
      cases plan with
      | nil => rwa [first_actions_empty]
      | cons action rest =>
          rw [first_actions_another]
          split
          · exact ih
          · next new =>
              rw [← List.concat_eq_append, List.nodup_concat]
              exact ⟨new, ih⟩

theorem first_actions_few (plans : List Plan) : (firstActions plans).length ≤ plans.length := by
  have within : firstActions plans ⊆ plans.filterMap List.head? := fun action => List.mem_eraseDups.mp
  exact (List.subperm_of_subset (first_actions_distinct plans) within).length_le.trans (List.length_filterMap_le _ _)

theorem first_actions_none (plans : List Plan) : firstActions plans = [] ↔ ∀ plan ∈ plans, plan = [] := by
  rw [List.eq_nil_iff_forall_not_mem]
  simp only [first_actions_cover, not_exists, not_and]
  constructor
  · intro none plan member
    cases plan with
    | nil => rfl
    | cons step rest => exact absurd rfl (none step _ member)
  · intro none action plan member begins
    rw [none plan member] at begins
    cases begins

end Plan

namespace Candidate

open Plan

def group (plans : List Plan) (action : Ground) : Candidate := ⟨action, plans.filter (Begins action)⟩

theorem add_known (action : Ground) (plan : Plan) (group : Ground → List Plan) (keys : List Ground) (distinct : keys.Nodup)
    (known : action ∈ keys) :
    add action plan (keys.map fun k => ⟨k, group k⟩) =
      keys.map fun k => ⟨k, if k = action then group k ++ [plan] else group k⟩ := by
  induction keys with
  | nil => cases known
  | cons key keys ih =>
      obtain ⟨new, distinct⟩ := List.nodup_cons.mp distinct
      rw [List.map_cons, List.map_cons, add]
      by_cases here : key = action
      · subst here
        rw [if_pos rfl, if_pos rfl]
        refine congrArg _ (List.map_congr_left fun k member => ?_)
        rw [if_neg (ne_of_mem_of_not_mem member new)]
      · rw [if_neg here, if_neg here, ih distinct ((List.mem_cons.mp known).resolve_left (Ne.symm here))]

theorem add_new (action : Ground) (plan : Plan) (candidates : List Candidate) (new : ∀ c ∈ candidates, c.action ≠ action) :
    add action plan candidates = candidates ++ [⟨action, [plan]⟩] := by
  induction candidates with
  | nil => rfl
  | cons candidate rest ih =>
      obtain ⟨differs, others⟩ := List.forall_mem_cons.mp new
      rw [add, if_neg differs, ih others]
      rfl

theorem of_plans_empty (plans : List Plan) : ofPlans (plans ++ [[]]) = ofPlans plans := by
  rw [ofPlans, List.foldl_append]
  rfl

theorem of_plans_another (plans : List Plan) (action : Ground) (rest : Plan) :
    ofPlans (plans ++ [action :: rest]) = add action (action :: rest) (ofPlans plans) := by
  rw [ofPlans, List.foldl_append]
  rfl

theorem of_plans_grouped (plans : List Plan) : ofPlans plans = (firstActions plans).map (group plans) := by
  induction plans using List.reverseRecOn with
  | nil => rfl
  | append_singleton plans plan ih =>
      have regrouped (action : Ground) :
          group (plans ++ [plan]) action = ⟨action, plans.filter (Begins action) ++ [plan].filter (Begins action)⟩ := by
        rw [group, List.filter_append]
      rw [funext regrouped]
      cases plan with
      | nil =>
          rw [of_plans_empty, ih, first_actions_empty]
          refine List.map_congr_left fun action _ => ?_
          rw [group]
          simp [Begins]
      | cons action rest =>
          have another (key : Ground) :
              [action :: rest].filter (Begins key) = if key = action then [action :: rest] else [] := by
            by_cases here : key = action
            · simp [Begins, here]
            · simp [Begins, here, Ne.symm here]
          rw [of_plans_another, ih, first_actions_another]
          simp only [another]
          split
          · next known =>
              refine (add_known action _ _ _ (first_actions_distinct plans) known).trans (List.map_congr_left fun key _ => ?_)
              split <;> simp
          · next new =>
              have others : ∀ key ∈ firstActions plans, key ≠ action := fun key member same => new (same ▸ member)
              rw [add_new action _ _ (by simpa [group] using others), List.map_append]
              congr 1
              · refine List.map_congr_left fun key member => ?_
                rw [if_neg (others key member), List.append_nil]
                rfl
              · have none : plans.filter (Begins action) = [] := by
                  refine List.filter_eq_nil_iff.mpr fun plan member begins => ?_
                  exact new ((first_actions_cover plans action).mpr ⟨plan, member, of_decide_eq_true begins⟩)
                rw [List.map_singleton, if_pos rfl, none]
                rfl

end Candidate

section Best

variable {R : Type} [Number R]

-- The first of the best: no score is greater, and all scores before it are less.
structure Tops (scores : List R) (i : Nat) (top : R) : Prop where
  scored : scores[i]? = some top
  most : ∀ score ∈ scores, Number.le score top = true
  first : ∀ score ∈ scores.take i, Number.lt score top = true

variable [Number.Ranked R] (scores : List R) (each : ∀ score ∈ scores, Number.Proper score) (x : R)
  (proper : Number.Proper x)

include proper

theorem le_itself : Number.le x x = true := (Number.Ranked.leTotal x x proper proper).elim id id

theorem tops_alone : Tops [x] 0 x := ⟨rfl, List.forall_mem_singleton.mpr (le_itself x proper), by simp⟩

include each

theorem tops_another (i : Nat) (top : R) (tops : Tops scores i top) :
    if Number.lt top x = true then Tops (scores ++ [x]) scores.length x else Tops (scores ++ [x]) i top := by
  obtain ⟨inside, found⟩ := List.getElem?_eq_some_iff.mp tops.scored
  have known : Number.Proper top := each top (found ▸ List.getElem_mem inside)
  split
  · next greater =>
      have less (score : R) (member : score ∈ scores) : Number.lt score x = true := by
        rw [Number.Ranked.ltIff _ _ (each score member) proper, ← Bool.not_eq_true]
        rw [Number.Ranked.ltIff _ _ known proper, ← Bool.not_eq_true] at greater
        exact fun back => greater (Number.Ranked.leTrans _ _ _ back (tops.most score member))
      refine ⟨List.getElem?_concat_length, ?_, ?_⟩
      · intro score member
        rcases List.mem_append.mp member with old | last
        · refine (Number.Ranked.leTotal score x (each score old) proper).resolve_right ?_
          rw [Bool.not_eq_true]
          exact (Number.Ranked.ltIff score x (each score old) proper).mp (less score old)
        · rw [List.mem_singleton.mp last]
          exact le_itself x proper
      · rw [List.take_left]
        exact less
  · next kept =>
      have atMost : Number.le x top = true := by
        rwa [Number.Ranked.ltIff _ _ known proper, Bool.not_eq_false] at kept
      refine ⟨(List.getElem?_append_left inside).trans tops.scored, ?_, ?_⟩
      · exact List.forall_mem_append.mpr ⟨tops.most, List.forall_mem_singleton.mpr atMost⟩
      · rw [List.take_append_of_le_length inside.le]
        exact tops.first

end Best

end Replan
