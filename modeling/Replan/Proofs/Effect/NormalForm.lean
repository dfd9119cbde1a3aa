import Mathlib.Logic.Basic
import Replan.Proofs.Effect.Structure
import Replan.Proofs.Query.NormalForm

set_option autoImplicit false

namespace Replan.Effect

section Shape

variable {R : Type}

def children : Effect R → List (Effect R)
  | conj parts => parts
  | forAll _ body => [body]
  | when _ body => [body]
  | probabilistic outcomes => outcomes.map Prod.snd
  | _ => []

def Mentions (e : Effect R) (p : Query R) : Prop :=
  (∃ condition body, when condition body ∈ e.nodes ∧ p.Inside condition) ∨
    ∃ op fluent value, assign op fluent value ∈ e.nodes ∧ p.Inside value

structure Conjunct (e : Effect R) : Prop where
  nontrivial : e ≠ skip
  flat : ∀ parts, e ≠ conj parts

def Compact : Effect R → Prop
  | conj parts => 2 ≤ parts.length ∧ ∀ e ∈ parts, e.Conjunct
  | _ => True

theorem conjunct_cases (e : Effect R) : e = skip ∨ (∃ parts, e = conj parts) ∨ e.Conjunct := by
  cases e with
  | skip => exact .inl rfl
  | conj parts => exact .inr (.inl ⟨parts, rfl⟩)
  | _ => exact .inr (.inr ⟨nofun, nofun⟩)

theorem conjuncts_single (e : Effect R) (conjunct : e.Conjunct) : conjuncts e = [e] := by
  cases e with
  | skip => exact absurd rfl conjunct.nontrivial
  | conj parts => exact absurd rfl (conjunct.flat parts)
  | _ => rfl

theorem conjoin_flat (parts : List (Effect R)) (several : 2 ≤ parts.length) (each : ∀ e ∈ parts, e.Conjunct) :
    conjoin parts = conj parts := by
  have flat := Query.flatten_single conjuncts parts fun e member => conjuncts_single e (each e member)
  unfold conjoin
  rw [flat]
  obtain _ | ⟨e, _ | ⟨f, rest⟩⟩ := parts
  · cases several
  · exact absurd several (Nat.lt_irrefl 1)
  · rfl

end Shape

variable {R : Type} [Number R]

-- No rule applies at the effect, in its conditions and values, or below it.
inductive Normal : Effect R → Prop
  | skip : Normal skip
  | add (fact : Atom) : Normal (add fact)
  | delete (fact : Atom) : Normal (delete fact)
  | conj (parts : List (Effect R)) (several : 2 ≤ parts.length) (each : ∀ e ∈ parts, e.Conjunct) :
      (∀ e ∈ parts, Normal e) → Normal (conj parts)
  | forAll (vars : List Term) (body : Effect R) (irreducible : quantify vars body = forAll vars body) :
      Normal body → Normal (forAll vars body)
  | when (condition : Query R) (body : Effect R) (irreducible : guard condition body = when condition body) :
      condition.Normal → Normal body → Normal (when condition body)
  | assign (op : AssignOp) (fluent : Atom) (value : Query R) (irreducible : set op fluent value = assign op fluent value) :
      value.Normal → Normal (assign op fluent value)
  | probabilistic (outcomes : List (R × Effect R)) (irreducible : choose outcomes = probabilistic outcomes)
      (appreciable : ∀ outcome ∈ outcomes, Number.le Number.epsilon outcome.1 = true) :
      (∀ outcome ∈ outcomes, Normal outcome.2) → Normal (probabilistic outcomes)

theorem normal_nodes (e node : Effect R) (normal : e.Normal) (inside : node ∈ e.nodes) : node.Normal := by
  induction normal with
  | skip => exact List.mem_singleton.mp inside ▸ .skip
  | add fact => exact List.mem_singleton.mp inside ▸ .add fact
  | delete fact => exact List.mem_singleton.mp inside ▸ .delete fact
  | conj parts several each normal ih =>
      obtain rfl | ⟨e, member, inside⟩ := (mem_nodes_conj node parts).mp inside
      · exact .conj parts several each normal
      · exact ih e member inside
  | forAll vars body irreducible normal ih =>
      obtain rfl | inside := (mem_nodes_for_all node vars body).mp inside
      · exact .forAll vars body irreducible normal
      · exact ih inside
  | when condition body irreducible condition' normal ih =>
      obtain rfl | inside := (mem_nodes_when node condition body).mp inside
      · exact .when condition body irreducible condition' normal
      · exact ih inside
  | assign op fluent value irreducible normal =>
      exact List.mem_singleton.mp inside ▸ .assign op fluent value irreducible normal
  | probabilistic outcomes irreducible appreciable normal ih =>
      obtain rfl | ⟨outcome, member, inside⟩ := (mem_nodes_choice node outcomes).mp inside
      · exact .probabilistic outcomes irreducible appreciable normal
      · exact ih outcome member inside

theorem normal_mentions (e : Effect R) (p : Query R) (normal : e.Normal) (mentions : e.Mentions p) : p.Normal := by
  obtain ⟨condition, body, inside, mentions⟩ | ⟨op, fluent, value, inside, mentions⟩ := mentions
  · cases normal_nodes e _ normal inside with
    | when _ _ _ condition' => exact Query.normal_inside p condition mentions condition'
  · cases normal_nodes e _ normal inside with
    | assign _ _ _ _ value' => exact Query.normal_inside p value mentions value'

theorem normal_compact (e : Effect R) (normal : e.Normal) : e.Compact := by
  cases normal with
  | conj parts several each => exact ⟨several, each⟩
  | _ => trivial

theorem normal_skip_child (e : Effect R) (normal : e.Normal) (member : skip ∈ e.children) :
    ∃ outcomes, e = probabilistic outcomes := by
  cases normal with
  | skip | add | delete | assign => cases member
  | conj parts _ each => exact absurd rfl (each skip member).nontrivial
  | forAll vars body irreducible =>
      cases List.mem_singleton.mp member
      cases irreducible
  | when condition body irreducible =>
      cases List.mem_singleton.mp member
      cases irreducible
  | probabilistic outcomes => exact ⟨outcomes, rfl⟩

theorem normal_fixed (e : Effect R) (normal : e.Normal) : e.simplify = e := by
  induction normal with
  | skip | add | delete => rfl
  | conj parts several each _ ih =>
      rw [simplify, simplify_list, List.map_congr_left ih, List.map_id', conjoin_flat parts several each]
  | forAll vars body irreducible _ ih => rw [simplify, ih, irreducible]
  | when condition body irreducible condition' _ ih => rw [simplify, ih, condition.normal_fixed condition', irreducible]
  | assign op fluent value irreducible normal => rw [simplify, value.normal_fixed normal, irreducible]
  | probabilistic outcomes irreducible appreciable _ ih =>
      have same : ∀ outcome ∈ outcomes, mapOutcome simplify outcome = outcome := fun outcome member =>
        Prod.ext rfl (ih outcome member)
      rw [simplify, simplify_outcomes, List.filter_eq_self.mpr appreciable, List.map_congr_left same, List.map_id',
        irreducible]

theorem conjuncts_normal (e part : Effect R) (normal : e.Normal) (member : part ∈ conjuncts e) :
    part.Conjunct ∧ part.Normal := by
  obtain rfl | ⟨parts, rfl⟩ | conjunct := conjunct_cases e
  · cases member
  · cases normal with
    | conj parts _ each normal => exact ⟨each part member, normal part member⟩
  · rw [conjuncts_single e conjunct, List.mem_singleton] at member
    exact member ▸ ⟨conjunct, normal⟩

theorem conjoin_normal (parts : List (Effect R)) (normal : ∀ e ∈ parts, e.Normal) : (conjoin parts).Normal := by
  have each : ∀ part ∈ parts.flatMap conjuncts, part.Conjunct ∧ part.Normal := by
    intro part member
    obtain ⟨e, inParts, member⟩ := List.mem_flatMap.mp member
    exact conjuncts_normal e part (normal e inParts) member
  unfold conjoin
  split
  · exact .skip
  · next e listed => exact (each e (listed ▸ List.mem_singleton_self e)).2
  · next nonempty several =>
      exact .conj _ (Query.two_or_more _ nonempty several) (fun e member => (each e member).1)
        fun e member => (each e member).2

theorem quantify_normal (vars : List Term) (body : Effect R) (normal : body.Normal) : (quantify vars body).Normal := by
  by_cases trivial : body.isSkip = true
  · rw [quantify, if_pos trivial]
    exact .skip
  · have irreducible : quantify vars body = forAll vars body := if_neg trivial
    rw [irreducible]
    exact .forAll vars body irreducible normal

theorem guard_normal (condition : Query R) (body : Effect R) (condition' : condition.Normal) (normal : body.Normal) :
    (guard condition body).Normal := by
  by_cases never : (body.isSkip || condition.isFalse) = true
  · rw [guard, if_pos never]
    exact .skip
  · by_cases ever : condition.isAlways = true
    · rw [guard, if_neg never, if_pos ever]
      exact normal
    · have irreducible : guard condition body = when condition body := by rw [guard, if_neg never, if_neg ever]
      rw [irreducible]
      exact .when condition body irreducible condition' normal

theorem set_cases (op : AssignOp) (fluent : Atom) (value : Query R) :
    set op fluent value = skip ∨ set op fluent value = assign op fluent value := by
  cases op with
  | assign => exact .inr rfl
  | increase | decrease | scaleUp | scaleDown => exact ite_eq_or_eq _ _ _

theorem set_normal (op : AssignOp) (fluent : Atom) (value : Query R) (normal : value.Normal) :
    (set op fluent value).Normal := by
  obtain dropped | irreducible := set_cases op fluent value
  · exact dropped ▸ .skip
  · rw [irreducible]
    exact .assign op fluent value irreducible normal

theorem choose_cases (outcomes : List (R × Effect R)) :
    choose outcomes = skip ∨ (∃ outcome ∈ outcomes, choose outcomes = outcome.2) ∨
      choose outcomes = probabilistic outcomes := by
  unfold choose
  split
  · exact .inl rfl
  · split
    · split
      · exact .inr (.inl ⟨_, List.mem_singleton_self _, rfl⟩)
      · exact .inr (.inr rfl)
    · exact .inr (.inr rfl)

theorem choose_normal (outcomes : List (R × Effect R))
    (appreciable : ∀ outcome ∈ outcomes, Number.le Number.epsilon outcome.1 = true)
    (normal : ∀ outcome ∈ outcomes, outcome.2.Normal) : (choose outcomes).Normal := by
  obtain dropped | ⟨outcome, member, certain⟩ | irreducible := choose_cases outcomes
  · exact dropped ▸ .skip
  · exact certain ▸ normal outcome member
  · rw [irreducible]
    exact .probabilistic outcomes irreducible appreciable normal

theorem simplify_normal (e : Effect R) : e.simplify.Normal := by
  induction e with
  | skip => exact .skip
  | add fact => exact .add fact
  | delete fact => exact .delete fact
  | conj parts ih =>
      refine conjoin_normal _ ?_
      rw [simplify_list]
      exact List.forall_mem_map.mpr ih
  | forAll vars body ih => exact quantify_normal vars _ ih
  | when condition body ih => exact guard_normal _ _ condition.simplify_normal ih
  | assign op fluent value => exact set_normal op fluent _ value.simplify_normal
  | probabilistic outcomes ih =>
      rw [simplify, simplify_outcomes]
      refine choose_normal _ (List.forall_mem_map.mpr ?_) (List.forall_mem_map.mpr ?_)
      · exact fun outcome member => (List.mem_filter.mp member).2
      · exact fun outcome member => ih outcome (List.mem_filter.mp member).1

/-- Simplifying again changes nothing, and at no depth is there a part left that could be joined with the one around
it. -/
theorem simplification_is_a_normal_form :
    (∀ q : Query R, q.simplify.simplify = q.simplify ∧ ∀ p : Query R, p.Inside q.simplify → p.Compact) ∧
    ∀ e : Effect R, e.simplify.simplify = e.simplify ∧ (∀ p, e.simplify.Mentions p → p.Compact) ∧
      ∀ node ∈ e.simplify.nodes, node.Compact ∧ (skip ∈ node.children → ∃ outcomes, node = probabilistic outcomes) := by
  constructor
  · intro q
    have normal := q.simplify_normal
    exact ⟨q.simplify.normal_fixed normal, fun p inside => p.normal_compact (p.normal_inside _ inside normal)⟩
  · intro e
    have normal := e.simplify_normal
    refine ⟨e.simplify.normal_fixed normal, fun p mentions => ?_, fun node inside => ?_⟩
    · exact p.normal_compact (normal_mentions _ p normal mentions)
    · have below := normal_nodes _ node normal inside
      exact ⟨normal_compact node below, normal_skip_child node below⟩

end Replan.Effect
