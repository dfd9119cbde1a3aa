import Mathlib.Algebra.Order.Field.Basic
import Mathlib.Data.List.Perm.Basic
import Replan.Proofs.Effect.Gathering

set_option autoImplicit false

namespace Replan

namespace Query

section Order

variable {R : Type}

-- The same query but for the order of conjuncts, wherever they stand.
inductive Reordered : Query R → Query R → Prop
  | same (q : Query R) : Reordered q q
  | swap (parts others : List (Query R)) (perm : parts.Perm others) : Reordered (conj parts) (conj others)
  | conjunct (before after : List (Query R)) (p q : Query R) :
      Reordered p q → Reordered (conj (before ++ p :: after)) (conj (before ++ q :: after))
  | disjunct (before after : List (Query R)) (p q : Query R) :
      Reordered p q → Reordered (disj (before ++ p :: after)) (disj (before ++ q :: after))
  | arithmetic (op : ArithmeticOp) (p p' q q' : Query R) :
      Reordered p p' → Reordered q q' → Reordered (arithmetic op p q) (arithmetic op p' q')
  | comparison (op : Comparison) (p p' q q' : Query R) :
      Reordered p p' → Reordered q q' → Reordered (comparison op p q) (comparison op p' q')
  | neg (p q : Query R) : Reordered p q → Reordered (neg p) (neg q)
  | imply (p p' q q' : Query R) : Reordered p p' → Reordered q q' → Reordered (imply p q) (imply p' q')
  | forAll (vars : List Term) (p q : Query R) : Reordered p q → Reordered (forAll vars p) (forAll vars q)
  | forSome (vars : List Term) (p q : Query R) : Reordered p q → Reordered (forSome vars p) (forSome vars q)
  | trans (p q r : Query R) : Reordered p q → Reordered q r → Reordered p r

theorem reordered_value [Number R] (p q : Query R) (reordered : p.Reordered q) (s : State R) (σs : List Substitution) :
    p.evalUnder s σs = q.evalUnder s σs := by
  induction reordered generalizing σs with
  | same q => rfl
  | swap parts others perm => rw [evalUnder, evalUnder, all_under, all_under, perm.all_eq]
  | conjunct before after p q _ ih =>
      rw [evalUnder, evalUnder, all_under, all_under, List.all_append, List.all_append, List.all_cons, List.all_cons, ih]
  | disjunct before after p q _ ih =>
      rw [evalUnder, evalUnder, any_under, any_under, List.any_append, List.any_append, List.any_cons, List.any_cons, ih]
  | arithmetic op p p' q q' _ _ left right => rw [evalUnder, evalUnder, left, right]
  | comparison op p p' q q' _ _ left right => rw [evalUnder, evalUnder, left, right]
  | neg p q _ ih => rw [evalUnder, evalUnder, ih]
  | imply p p' q q' _ _ premise conclusion => rw [evalUnder, evalUnder, premise, conclusion]
  | forAll vars p q _ ih => simp only [evalUnder, ih]
  | forSome vars p q _ ih => simp only [evalUnder, ih]
  | trans p q r _ _ first second => rw [first, second]

end Order

section Substituting

variable {R : Type}

def bindEach (σs : List Substitution) (q : Query R) : Query R := σs.foldl (fun q σ => q.bind σ) q

theorem holds_bind_each [Number R] (σs : List Substitution) (q : Query R) (s : State R) :
    (q.bindEach σs).holds s = (q.evalUnder s σs).asBool := by
  suffices ∀ τs, (q.bindEach σs).evalUnder s τs = q.evalUnder s (σs ++ τs) by
    rw [holds, eval, this, List.append_nil]
  induction σs generalizing q with
  | nil => exact fun τs => rfl
  | cons σ σs ih =>
      intro τs
      rw [bindEach, List.foldl_cons]
      exact (ih (q.bind σ) τs).trans (q.eval_bind s σ (σs ++ τs))

end Substituting

end Query

def Ground.IsEquation (fact : Ground) : Prop := fact.name = "=" ∧ fact.args.length = 2

theorem State.holds_relational {R : Type} (s : State R) (fact : Ground) (relational : ¬fact.IsEquation) :
    s.holds fact = true ↔ fact ∈ s.facts := by
  unfold holds
  split
  · exact absurd ⟨rfl, rfl⟩ relational
  · exact List.contains_iff_mem

theorem Number.nonzero_dividing {K : Type} [ExactNumber K] (quotient : K → K → K) (x : K) :
    letI := Number.dividing quotient
    isZero x = false → x ≠ 0 := by
  intro nonzero zero
  have isZero : (exactArithmetic.eq x Number.zero) = true := (eq_exact x _).mpr (zero.trans zero_exact.symm)
  exact Bool.false_ne_true (nonzero.symm.trans isZero)

namespace AssignOp

variable {K : Type} [ExactNumber K] (quotient : K → K → K) (divides : ∀ x y, y ≠ 0 → quotient x y = x / y)

theorem shifts_commute (op op' : AssignOp) (shifts : op = .increase ∨ op = .decrease)
    (shifts' : op' = .increase ∨ op' = .decrease) (z x y : K) :
    letI := Number.dividing quotient
    op'.apply (op.apply z x) y = op.apply (op'.apply z y) x := by
  rcases shifts with rfl | rfl <;> rcases shifts' with rfl | rfl
  · exact add_right_comm z x y
  · exact add_sub_right_comm z x y
  · exact (add_sub_right_comm z y x).symm
  · exact sub_right_comm z x y

include divides in
theorem scales_commute (op op' : AssignOp) (scales : op = .scaleUp ∨ op = .scaleDown)
    (scales' : op' = .scaleUp ∨ op' = .scaleDown) (z x y : K) (first : x ≠ 0) (second : y ≠ 0) :
    letI := Number.dividing quotient
    op'.apply (op.apply z x) y = op.apply (op'.apply z y) x := by
  rcases scales with rfl | rfl <;> rcases scales' with rfl | rfl
  · exact mul_right_comm z x y
  · show quotient (z * x) y = quotient z y * x
    rw [divides _ y second, divides _ y second, mul_div_right_comm]
  · show quotient z x * y = quotient (z * y) x
    rw [divides _ x first, divides _ x first, mul_div_right_comm]
  · show quotient (quotient z x) y = quotient (quotient z y) x
    rw [divides _ x first, divides _ y second, divides _ y second, divides _ x first, div_right_comm]

end AssignOp

namespace Changes

variable {R : Type}

structure Shuffled (a b : Changes R) : Prop where
  adds : a.adds.Perm b.adds
  deletes : a.deletes.Perm b.deletes
  assignments : a.assignments.Perm b.assignments

theorem shuffled_self (a : Changes R) : a.Shuffled a := ⟨.refl _, .refl _, .refl _⟩

theorem Shuffled.trans {a b c : Changes R} (first : a.Shuffled b) (second : b.Shuffled c) : a.Shuffled c :=
  ⟨first.adds.trans second.adds, first.deletes.trans second.deletes, first.assignments.trans second.assignments⟩

theorem shuffled_append {a a' b b' : Changes R} (first : a.Shuffled a') (second : b.Shuffled b') :
    (a.append b).Shuffled (a'.append b') :=
  ⟨first.adds.append second.adds, first.deletes.append second.deletes, first.assignments.append second.assignments⟩

theorem shuffled_join (cs ds : List (Changes R)) (perm : cs.Perm ds) : (join cs).Shuffled (join ds) :=
  ⟨perm.flatMap_right _, perm.flatMap_right _, perm.flatMap_right _⟩

theorem shuffled_each {α : Type} (xs : List α) (f g : α → Changes R) (each : ∀ x ∈ xs, (f x).Shuffled (g x)) :
    (join (xs.map f)).Shuffled (join (xs.map g)) := by
  induction xs with
  | nil => exact shuffled_self _
  | cons x xs ih =>
      obtain ⟨first, others⟩ := List.forall_mem_cons.mp each
      rw [List.map_cons, List.map_cons, join_cons, join_cons]
      exact shuffled_append first (ih others)

theorem shuffled_value [Number R] {a b : Changes R} (shuffled : a.Shuffled b) (f : Ground)
    (commute : ∀ c ∈ a.assignments, ∀ d ∈ a.assignments, c.2.1 = f → d.2.1 = f → ∀ z : R,
      d.1.apply (c.1.apply z c.2.2) d.2.2 = c.1.apply (d.1.apply z d.2.2) c.2.2) (x : R) :
    settle f x a.assignments = settle f x b.assignments := by
  refine shuffled.assignments.foldl_eq' (fun c inA d alsoInA z => ?_) x
  by_cases first : c.2.1 = f
  · by_cases second : d.2.1 = f
    · simpa only [if_pos first, if_pos second] using commute c inA d alsoInA first second z
    · simp only [if_pos first, if_neg second]
  · simp only [if_neg first]

theorem shuffled_facts {a b : Changes R} (shuffled : a.Shuffled b) (facts : List Ground) (fact : Ground) :
    fact ∈ a.revise facts ↔ fact ∈ b.revise facts := by
  rw [mem_revise, mem_revise, shuffled.adds.mem_iff, shuffled.deletes.mem_iff]

end Changes

namespace Effect

section Order

variable {R : Type}

inductive Reordered : Effect R → Effect R → Prop
  | same (e : Effect R) : Reordered e e
  | swap (parts others : List (Effect R)) (perm : parts.Perm others) : Reordered (conj parts) (conj others)
  | part (before after : List (Effect R)) (e f : Effect R) :
      Reordered e f → Reordered (conj (before ++ e :: after)) (conj (before ++ f :: after))
  | forAll (vars : List Term) (e f : Effect R) : Reordered e f → Reordered (forAll vars e) (forAll vars f)
  | when (p q : Query R) (e f : Effect R) : p.Reordered q → Reordered e f → Reordered (when p e) (when q f)
  | assign (op : AssignOp) (fluent : Atom) (p q : Query R) :
      p.Reordered q → Reordered (assign op fluent p) (assign op fluent q)
  | trans (e f g : Effect R) : Reordered e f → Reordered f g → Reordered e g

theorem reordered_certain (e f : Effect R) (reordered : e.Reordered f) :
    e.hasProbabilistic = f.hasProbabilistic := by
  induction reordered with
  | same e => rfl
  | swap parts others perm => rw [has_probabilistic_conj, has_probabilistic_conj, perm.any_eq]
  | part before after e f _ ih =>
      simp only [has_probabilistic_conj, List.any_append, List.any_cons, ih]
  | forAll vars e f _ ih => rw [has_probabilistic_for_all, has_probabilistic_for_all, ih]
  | when p q e f _ _ ih => rw [has_probabilistic_when, has_probabilistic_when, ih]
  | assign op fluent p q _ => rfl
  | trans e f g _ _ first second => rw [first, second]

end Order

section Substituting

variable {R : Type}

def bindEach (σs : List Substitution) (e : Effect R) : Effect R := σs.foldl (fun e σ => e.bind σ) e

theorem bind_each_last (σs : List Substitution) (β : Substitution) (e : Effect R) :
    e.bindEach (σs ++ [β]) = (e.bindEach σs).bind β := List.foldl_append

theorem bind_each_skip (σs : List Substitution) : (skip : Effect R).bindEach σs = skip := by
  induction σs with
  | nil => rfl
  | cons σ σs ih => exact ih

theorem bind_each_add (σs : List Substitution) (a : Atom) : (add a : Effect R).bindEach σs = add (a.bindAll σs) := by
  induction σs generalizing a with
  | nil => rfl
  | cons σ σs ih => exact ih (a.bind σ)

theorem bind_each_delete (σs : List Substitution) (a : Atom) :
    (delete a : Effect R).bindEach σs = delete (a.bindAll σs) := by
  induction σs generalizing a with
  | nil => rfl
  | cons σ σs ih => exact ih (a.bind σ)

theorem bind_each_assign (σs : List Substitution) (op : AssignOp) (fluent : Atom) (value : Query R) :
    (assign op fluent value).bindEach σs = assign op (fluent.bindAll σs) (value.bindEach σs) := by
  induction σs generalizing fluent value with
  | nil => rfl
  | cons σ σs ih => exact ih (fluent.bind σ) (value.bind σ)

theorem bind_each_conj (σs : List Substitution) (parts : List (Effect R)) :
    (conj parts).bindEach σs = conj (parts.map (bindEach σs)) := by
  induction σs generalizing parts with
  | nil => exact congrArg conj (List.map_id parts).symm
  | cons σ σs ih =>
      rw [bindEach, List.foldl_cons, bind, bind_list]
      exact (ih _).trans (congrArg conj List.map_map)

theorem bind_each_for_all (σs : List Substitution) (vars : List Term) (body : Effect R) :
    (forAll vars body).bindEach σs = forAll vars (body.bindEach (σs.map (·.shadow vars))) := by
  induction σs generalizing body with
  | nil => rfl
  | cons σ σs ih => exact ih (body.bind (σ.shadow vars))

theorem bind_each_when (σs : List Substitution) (condition : Query R) (body : Effect R) :
    (when condition body).bindEach σs = when (condition.bindEach σs) (body.bindEach σs) := by
  induction σs generalizing condition body with
  | nil => rfl
  | cons σ σs ih => exact ih (condition.bind σ) (body.bind σ)

theorem bind_each_choice (σs : List Substitution) (outcomes : List (R × Effect R)) :
    ∃ bound, (probabilistic outcomes).bindEach σs = probabilistic bound := by
  induction σs generalizing outcomes with
  | nil => exact ⟨outcomes, rfl⟩
  | cons σ σs ih => exact ih (bindOutcomes σ outcomes)

end Substituting

section Order

variable {R : Type} [Number R]

theorem reordered_gathered (e f : Effect R) (reordered : e.Reordered f) (s : State R) (σs : List Substitution) :
    (e.gathered s σs).Shuffled (f.gathered s σs) := by
  induction reordered generalizing σs with
  | same e => exact Changes.shuffled_self _
  | swap parts others perm =>
      rw [gathered, gathered, gathered_list, gathered_list]
      exact Changes.shuffled_join _ _ (perm.map _)
  | part before after e f _ ih =>
      simp only [gathered, gathered_list, List.map_append, List.map_cons, Changes.join_append, Changes.join_cons]
      exact Changes.shuffled_append (Changes.shuffled_self _) (Changes.shuffled_append (ih σs) (Changes.shuffled_self _))
  | forAll vars e f _ ih => exact Changes.shuffled_each _ _ _ fun β _ => ih _
  | when p q e f conditions _ ih =>
      rw [gathered, gathered, p.reordered_value q conditions]
      split
      · exact ih σs
      · exact Changes.shuffled_self _
  | assign op fluent p q values =>
      rw [gathered, gathered, p.reordered_value q values]
      exact Changes.shuffled_self _
  | trans e f g _ _ first second => exact (first σs).trans (second σs)

end Order

section Leaves

variable {R : Type} [Number R]

-- The instances of leaves that are let through: one for every binding of the quantifiers around a leaf under which all
-- the conditions around it hold.
inductive Enables (s : State R) : Effect R → Effect R → Prop
  | add (fact : Atom) : Enables s (add fact) (add fact)
  | delete (fact : Atom) : Enables s (delete fact) (delete fact)
  | assign (op : AssignOp) (fluent : Atom) (value : Query R) : Enables s (assign op fluent value) (assign op fluent value)
  | part (parts : List (Effect R)) (e leaf : Effect R) (member : e ∈ parts) :
      Enables s e leaf → Enables s (conj parts) leaf
  | forAll (vars : List Term) (body leaf : Effect R) (β : Substitution) (bound : β ∈ s.world.bindings vars) :
      Enables s (body.bind β) leaf → Enables s (forAll vars body) leaf
  | when (condition : Query R) (body leaf : Effect R) (holds : condition.holds s = true) :
      Enables s body leaf → Enables s (when condition body) leaf

def Adds (s : State R) (e : Effect R) (fact : Ground) : Prop := ∃ a, Enables s e (add a) ∧ a.ground = fact

def Deletes (s : State R) (e : Effect R) (fact : Ground) : Prop := ∃ a, Enables s e (delete a) ∧ a.ground = fact

def Assigns (s : State R) (e : Effect R) (op : AssignOp) (f : Ground) (x : R) : Prop :=
  ∃ fluent value, Enables s e (assign op fluent value) ∧ fluent.ground = f ∧ (value.eval s).asNumber = x

theorem enables_conj (s : State R) (parts : List (Effect R)) (leaf : Effect R) :
    Enables s (conj parts) leaf ↔ ∃ e ∈ parts, Enables s e leaf := by
  constructor
  · intro enables
    cases enables with
    | part _ e _ member inside => exact ⟨e, member, inside⟩
  · rintro ⟨e, member, inside⟩
    exact .part parts e leaf member inside

theorem enables_for_all (s : State R) (vars : List Term) (body leaf : Effect R) :
    Enables s (forAll vars body) leaf ↔ ∃ β ∈ s.world.bindings vars, Enables s (body.bind β) leaf := by
  constructor
  · intro enables
    cases enables with
    | forAll _ _ _ β bound inside => exact ⟨β, bound, inside⟩
  · rintro ⟨β, bound, inside⟩
    exact .forAll vars body leaf β bound inside

theorem enables_when (s : State R) (condition : Query R) (body leaf : Effect R) :
    Enables s (when condition body) leaf ↔ condition.holds s = true ∧ Enables s body leaf := by
  constructor
  · intro enables
    cases enables with
    | when _ _ _ holds inside => exact ⟨holds, inside⟩
  · rintro ⟨holds, inside⟩
    exact .when condition body leaf holds inside

theorem gathered_bind_each (σs : List Substitution) (e : Effect R) (s : State R) :
    (e.bindEach σs).gathered s [] = e.gathered s σs := by
  suffices ∀ τs, (e.bindEach σs).gathered s τs = e.gathered s (σs ++ τs) from (this []).trans (by rw [List.append_nil])
  induction σs generalizing e with
  | nil => exact fun τs => rfl
  | cons σ σs ih =>
      intro τs
      rw [bindEach, List.foldl_cons]
      exact (ih (e.bind σ) τs).trans (gathered_bind e s σ (σs ++ τs))

theorem mem_gathered {γ : Type} (kind : Changes R → List γ) (joined : ∀ cs, kind (.join cs) = cs.flatMap kind)
    (e : Effect R) (s : State R) (σs : List Substitution) (x : γ) :
    x ∈ kind (e.gathered s σs) ↔ ∃ leaf, Enables s (e.bindEach σs) leaf ∧ x ∈ kind (leaf.gathered s []) := by
  have nothing : x ∉ kind .none := by
    rw [← Changes.join_nil, joined]
    exact List.not_mem_nil
  have single (leaf : Effect R) (enables : ∀ other, Enables s leaf other ↔ other = leaf) :
      x ∈ kind (leaf.gathered s []) ↔ ∃ other, Enables s leaf other ∧ x ∈ kind (other.gathered s []) := by
    simp only [enables, exists_eq_left]
  induction e generalizing σs with
  | skip =>
      rw [bind_each_skip]
      refine iff_of_false nothing ?_
      rintro ⟨_, enables, _⟩
      cases enables
  | add a =>
      rw [← gathered_bind_each, bind_each_add]
      refine single _ fun other => ⟨fun enables => by cases enables; rfl, ?_⟩
      rintro rfl
      exact .add _
  | delete a =>
      rw [← gathered_bind_each, bind_each_delete]
      refine single _ fun other => ⟨fun enables => by cases enables; rfl, ?_⟩
      rintro rfl
      exact .delete _
  | assign op fluent value =>
      rw [← gathered_bind_each, bind_each_assign]
      refine single _ fun other => ⟨fun enables => by cases enables; rfl, ?_⟩
      rintro rfl
      exact .assign op _ _
  | conj parts ih =>
      rw [gathered, gathered_list, joined, bind_each_conj]
      simp only [List.mem_flatMap, List.mem_map, exists_exists_and_eq_and, enables_conj]
      constructor
      · rintro ⟨e, member, inside⟩
        obtain ⟨leaf, enables, found⟩ := (ih e member σs).mp inside
        exact ⟨leaf, ⟨e, member, enables⟩, found⟩
      · rintro ⟨leaf, ⟨e, member, enables⟩, found⟩
        exact ⟨e, member, (ih e member σs).mpr ⟨leaf, enables, found⟩⟩
  | forAll vars body ih =>
      rw [gathered, joined, bind_each_for_all]
      simp only [List.mem_flatMap, List.mem_map, exists_exists_and_eq_and, enables_for_all, ih, bind_each_last]
      constructor
      · rintro ⟨β, bound, leaf, enables, found⟩
        exact ⟨leaf, ⟨β, bound, enables⟩, found⟩
      · rintro ⟨leaf, ⟨β, bound, enables⟩, found⟩
        exact ⟨β, bound, leaf, enables, found⟩
  | when condition body ih =>
      rw [gathered, bind_each_when]
      simp only [enables_when, condition.holds_bind_each]
      split
      · next holds => simp only [holds, true_and, ih]
      · next fails =>
          refine iff_of_false nothing ?_
          rintro ⟨_, ⟨holds, _⟩, _⟩
          exact fails holds
  | probabilistic outcomes _ =>
      obtain ⟨bound, same⟩ := bind_each_choice σs outcomes
      rw [same]
      refine iff_of_false nothing ?_
      rintro ⟨_, enables, _⟩
      cases enables

theorem enables_leaf (s : State R) (e leaf : Effect R) (enables : Enables s e leaf) :
    (∃ a, leaf = add a) ∨ (∃ a, leaf = delete a) ∨ ∃ op fluent value, leaf = assign op fluent value := by
  induction enables with
  | add fact => exact .inl ⟨fact, rfl⟩
  | delete fact => exact .inr (.inl ⟨fact, rfl⟩)
  | assign op fluent value => exact .inr (.inr ⟨op, fluent, value, rfl⟩)
  | part _ _ _ _ _ ih => exact ih
  | forAll _ _ _ _ _ _ ih => exact ih
  | when _ _ _ _ _ ih => exact ih

theorem gathered_adds (e : Effect R) (s : State R) (fact : Ground) :
    fact ∈ (e.gathered s []).adds ↔ e.Adds s fact := by
  refine (mem_gathered Changes.adds (fun _ => rfl) e s [] fact).trans ⟨?_, ?_⟩
  · rintro ⟨leaf, enables, found⟩
    obtain ⟨a, rfl⟩ | ⟨a, rfl⟩ | ⟨op, fluent, value, rfl⟩ := enables_leaf s e leaf enables
    · exact ⟨a, enables, (List.mem_singleton.mp found).symm⟩
    · cases found
    · cases found
  · rintro ⟨a, enables, rfl⟩
    exact ⟨add a, enables, List.mem_singleton.mpr rfl⟩

theorem gathered_deletes (e : Effect R) (s : State R) (fact : Ground) :
    fact ∈ (e.gathered s []).deletes ↔ e.Deletes s fact := by
  refine (mem_gathered Changes.deletes (fun _ => rfl) e s [] fact).trans ⟨?_, ?_⟩
  · rintro ⟨leaf, enables, found⟩
    obtain ⟨a, rfl⟩ | ⟨a, rfl⟩ | ⟨op, fluent, value, rfl⟩ := enables_leaf s e leaf enables
    · cases found
    · exact ⟨a, enables, (List.mem_singleton.mp found).symm⟩
    · cases found
  · rintro ⟨a, enables, rfl⟩
    exact ⟨delete a, enables, List.mem_singleton.mpr rfl⟩

theorem gathered_assigns (e : Effect R) (s : State R) (op : AssignOp) (f : Ground) (x : R) :
    (op, f, x) ∈ (e.gathered s []).assignments ↔ e.Assigns s op f x := by
  refine (mem_gathered Changes.assignments (fun _ => rfl) e s [] (op, f, x)).trans ⟨?_, ?_⟩
  · rintro ⟨leaf, enables, found⟩
    obtain ⟨a, rfl⟩ | ⟨a, rfl⟩ | ⟨op, fluent, value, rfl⟩ := enables_leaf s e leaf enables
    · cases found
    · cases found
    · cases List.mem_singleton.mp found
      exact ⟨fluent, value, enables, rfl, rfl⟩
  · rintro ⟨fluent, value, enables, rfl, rfl⟩
    exact ⟨assign op fluent value, enables, List.mem_singleton.mpr rfl⟩

end Leaves

section Facts

variable {R : Type} [Number R]

theorem applied_holds (e : Effect R) (s : State R) (fact : Ground) (relational : ¬fact.IsEquation) :
    ((e.gathered s []).applyTo s).holds fact = true ↔ e.Adds s fact ∨ s.holds fact = true ∧ ¬e.Deletes s fact := by
  rw [State.holds_relational _ fact relational, State.holds_relational s fact relational, Changes.apply_to_facts,
    Changes.mem_revise, gathered_adds, gathered_deletes, and_comm]

-- Every enabled assignment to the fluent adds to it or subtracts from it.
def Shifts (s : State R) (e : Effect R) (f : Ground) : Prop :=
  ∀ op x, e.Assigns s op f x → op = .increase ∨ op = .decrease

-- Every enabled assignment to the fluent multiplies or divides it by a number other than zero.
def Scales (s : State R) (e : Effect R) (f : Ground) : Prop :=
  ∀ op x, e.Assigns s op f x → (op = .scaleUp ∨ op = .scaleDown) ∧ Number.isZero x = false

theorem assigned_scales (s : State R) (e : Effect R) (f : Ground) (scales : e.Scales s f)
    (change : AssignOp × Ground × R) (gathered : change ∈ (e.gathered s []).assignments) (assigned : change.2.1 = f) :
    (change.1 = .scaleUp ∨ change.1 = .scaleDown) ∧ Number.isZero change.2.2 = false :=
  scales _ _ (assigned ▸ (gathered_assigns e s _ _ _).mp gathered)

theorem assigned_shifts (s : State R) (e : Effect R) (f : Ground) (shifts : e.Shifts s f)
    (change : AssignOp × Ground × R) (gathered : change ∈ (e.gathered s []).assignments) (assigned : change.2.1 = f) :
    change.1 = .increase ∨ change.1 = .decrease :=
  shifts _ change.2.2 (assigned ▸ (gathered_assigns e s _ _ _).mp gathered)

end Facts

/-- The parts of an effect are carried out at once: a fact holds afterwards if some part adds it, or if it held before
and no part deletes it, and the order of the parts does not matter. Nor does it matter to values that are only shifted
or only scaled. -/
theorem application_is_simultaneous :
    (∀ {R : Type} [Number R] (e : Effect R) (s : State R), e.hasProbabilistic = false →
      ∃ t, e.apply s = .ok t ∧
        (∀ fact : Ground, ¬fact.IsEquation →
          (t.holds fact = true ↔ e.Adds s fact ∨ s.holds fact = true ∧ ¬e.Deletes s fact)) ∧
        ∀ f, e.Reordered f → ∃ u, f.apply s = .ok u ∧ ∀ fact, fact ∈ u.facts ↔ fact ∈ t.facts) ∧
    ∀ {K : Type} [ExactNumber K] (quotient : K → K → K), (∀ x y, y ≠ 0 → quotient x y = x / y) →
      letI := Number.dividing quotient
      ∀ (e f : Effect K) (s : State K), e.hasProbabilistic = false → e.Reordered f →
        ∃ t u, e.apply s = .ok t ∧ f.apply s = .ok u ∧
          ∀ fluent, e.Shifts s fluent ∨ e.Scales s fluent → u.value fluent = t.value fluent := by
  constructor
  · intro R _ e s certain
    refine ⟨_, apply_gathered e certain s, applied_holds e s, fun f reordered => ?_⟩
    refine ⟨_, apply_gathered f ((reordered_certain e f reordered).symm.trans certain) s, fun fact => ?_⟩
    rw [Changes.apply_to_facts, Changes.apply_to_facts]
    exact (Changes.shuffled_facts (reordered_gathered e f reordered s []) s.facts fact).symm
  · intro K _ quotient divides
    let _ := Number.dividing quotient
    intro e f s certain reordered
    refine ⟨_, _, apply_gathered e certain s,
      apply_gathered f ((reordered_certain e f reordered).symm.trans certain) s, fun fluent alike => ?_⟩
    rw [Changes.apply_to_value, Changes.apply_to_value]
    refine (Changes.shuffled_value (reordered_gathered e f reordered s []) fluent ?_ _).symm
    intro c inE d alsoInE first second z
    rcases alike with shifts | scales
    · exact AssignOp.shifts_commute quotient _ _ (assigned_shifts s e fluent shifts c inE first)
        (assigned_shifts s e fluent shifts d alsoInE second) z _ _
    · obtain ⟨op, nonzero⟩ := assigned_scales s e fluent scales c inE first
      obtain ⟨op', nonzero'⟩ := assigned_scales s e fluent scales d alsoInE second
      exact AssignOp.scales_commute quotient divides _ _ op op' z _ _ (Number.nonzero_dividing quotient _ nonzero)
        (Number.nonzero_dividing quotient _ nonzero')

def coverClear (conditions : List (Query ℚ)) (parts : List (Effect ℚ)) : Effect ℚ :=
  .forAll [⟨"?x", some "block"⟩] (.when (.conj conditions) (.conj parts))

def clearConditions : List (Query ℚ) := [.always, .fact ⟨"clear", [Term.untyped "?x"]⟩]

def coverParts : List (Effect ℚ) :=
  [.delete ⟨"clear", [Term.untyped "?x"]⟩, .add ⟨"covered", [Term.untyped "?x"]⟩,
    .assign .increase Query.fuelAtom (.constant 2)]

def coverAll : Effect ℚ :=
  .conj [coverClear clearConditions coverParts, .add ⟨"clear", [Term.untyped "a"]⟩,
    .assign .decrease Query.fuelAtom (.constant 1)]

def coverAllBackwards : Effect ℚ :=
  .conj [.assign .decrease Query.fuelAtom (.constant 1), .add ⟨"clear", [Term.untyped "a"]⟩,
    coverClear clearConditions.reverse coverParts.reverse]

theorem cover_all_reordered : coverAll.Reordered coverAllBackwards := by
  have covering : (coverClear clearConditions coverParts).Reordered
      (coverClear clearConditions.reverse coverParts.reverse) :=
    .forAll _ _ _ (.when _ _ _ _ (.swap _ _ (List.reverse_perm _).symm) (.swap _ _ (List.reverse_perm _).symm))
  exact .trans _ _ _ (.part [] [_, _] _ _ covering) (.swap _ _ (List.reverse_perm _).symm)

theorem application_is_simultaneous_cover :
    letI := Number.dividing fun x y : ℚ => if y = 0 then 1 else x / y
    let s := Query.fuelledState
    let clear : Ground := ⟨"clear", ["a"]⟩
    coverAll.hasProbabilistic = false ∧ coverAll.Reordered coverAllBackwards ∧ coverAll.Adds s clear ∧
      coverAll.Deletes s clear ∧ ∃ t u, coverAll.apply s = .ok t ∧ coverAllBackwards.apply s = .ok u ∧
        t.holds clear = true ∧ clear ∈ u.facts ∧ t.value Query.fuelAtom.ground = 4 ∧
        u.value Query.fuelAtom.ground = 4 := by
  let _ := Number.dividing fun x y : ℚ => if y = 0 then 1 else x / y
  intro s clear
  obtain ⟨facts, values⟩ := application_is_simultaneous
  have certain : coverAll.hasProbabilistic = false := by decide +kernel
  have adds : coverAll.Adds s clear := (gathered_adds coverAll s clear).mp (by decide +kernel)
  have deletes : coverAll.Deletes s clear := (gathered_deletes coverAll s clear).mp (by decide +kernel)
  have listed : (coverAll.gathered s []).assignments =
      [(.increase, Query.fuelAtom.ground, 2), (.decrease, Query.fuelAtom.ground, 1)] := by decide +kernel
  have shifts : coverAll.Shifts s Query.fuelAtom.ground := by
    intro op x assigns
    have known := (gathered_assigns coverAll s op _ x).mpr assigns
    rw [listed] at known
    simp only [List.mem_cons, List.not_mem_nil, or_false, Prod.mk.injEq] at known
    exact known.imp And.left And.left
  obtain ⟨t, applied, holds, others⟩ := facts coverAll s certain
  obtain ⟨u, backwards, same⟩ := others coverAllBackwards cover_all_reordered
  obtain ⟨t', u', again, alsoAgain, alike⟩ :=
    values (fun x y : ℚ => if y = 0 then 1 else x / y) (fun _ _ nonzero => if_neg nonzero) coverAll coverAllBackwards s
      certain cover_all_reordered
  cases applied.symm.trans again
  cases backwards.symm.trans alsoAgain
  have relational : ¬clear.IsEquation := fun equation => absurd equation.1 (by decide)
  have covered : t.holds clear = true := (holds clear relational).mpr (.inl adds)
  have run : ((coverAll.apply s).map fun t => t.value Query.fuelAtom.ground).toOption = some 4 := by decide +kernel
  rw [applied] at run
  have fuel : t.value Query.fuelAtom.ground = 4 := Option.some.inj run
  exact ⟨certain, cover_all_reordered, adds, deletes, t, u, applied, backwards, covered,
    (same clear).mpr ((t.holds_relational clear relational).mp covered), fuel, (alike _ (.inl shifts)).trans fuel⟩

end Effect

end Replan
