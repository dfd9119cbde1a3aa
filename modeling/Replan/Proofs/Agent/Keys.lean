import Replan.Agent.Hindsight
import Replan.Agent.Simple
import Replan.Proofs.Agent.Anchored
import Replan.Proofs.StaticParts

set_option autoImplicit false

namespace Replan

open Results

section Facts

variable {R : Type}

theorem State.kept_facts_iff {world : Universe} {s s' : State R} (regular : s.Regular world)
    (regular' : s'.Regular world) (kept : String → Bool) :
    (s.facts.filter fun fact => kept fact.name) = (s'.facts.filter fun fact => kept fact.name) ↔
      ∀ predicate, kept predicate = true → s.factsOf predicate = s'.factsOf predicate := by
  constructor
  · intro same predicate keeps
    have selected (facts : List Ground) : (facts.filter fun fact => fact.name == predicate) =
        (facts.filter fun fact => kept fact.name).filter fun fact => fact.name == predicate := by
      rw [List.filter_filter]
      refine List.filter_congr fun fact _ => ?_
      by_cases named : fact.name = predicate
      · simp [named, keeps]
      · simp [named]
    rw [factsOf, factsOf, selected s.facts, selected s'.facts, same]
  · intro each
    refine (regular.facts.filter _).eq_of_mem_iff (regular'.facts.filter _) fun fact => ?_
    have named (x : State R) : fact ∈ x.factsOf fact.name ↔ fact ∈ x.facts := by simp [factsOf]
    rw [List.mem_filter, List.mem_filter]
    refine and_congr_left fun keeps => ?_
    rw [← named s, ← named s', each fact.name keeps]

theorem State.facts_iff {world : Universe} {s s' : State R} (regular : s.Regular world) (regular' : s'.Regular world) :
    s.facts = s'.facts ↔ ∀ predicate, s.factsOf predicate = s'.factsOf predicate := by
  have whole := State.kept_facts_iff regular regular' fun _ => true
  simpa using whole

variable [Number R]

theorem Problem.visited_regular (p : Problem R) (s : State R) (visited : p.Visits s) : s.Regular p.world := by
  induction visited with
  | start => exact p.regular_initial
  | step s s' step dice rolled _ sampled ih =>
      obtain ⟨g, os, -, succeeded⟩ := (sample_ok_iff p s s' step dice).mp (congrArg Prod.fst sampled)
      exact p.regular_successor ih step g _ succeeded

theorem Determinizer.vocabulary_declared (t t' : Determinizer R) (d : Domain R) (domainSet : t.setDomain d = .ok t') :
    t'.baseVocabulary = .ok d.predicateNames := by
  obtain ⟨_, -, rfl⟩ := (set_domain_ok_iff t t' d).mp domainSet
  rfl

end Facts

section Keys

variable {R : Type} [Number R]

inductive KeyVocabulary (p : Problem R) (t : Determinizer R) : List String → Prop
  | simple {σ : Type} (start : σ) (memory : SimpleAgent R σ) :
      SimpleAgent.ofProblem p t start = .ok memory → KeyVocabulary p t memory.vocabulary
  | hindsight {σ : Type} (start : σ) (settings : HindsightSettings R) (dice : Dice R) (memory : HindsightAgent R σ) :
      HindsightAgent.ofProblem p t start settings dice = .ok memory → KeyVocabulary p t memory.vocabulary

theorem KeyVocabulary.declared {p : Problem R} {t : Determinizer R} {vocabulary : List String}
    (used : KeyVocabulary p t vocabulary) : vocabulary = p.domain.predicateNames := by
  cases used with
  | simple start memory made =>
      simp only [SimpleAgent.ofProblem, bind_ok_iff, pure_ok_iff] at made
      obtain ⟨t', domainSet, names, known, rfl⟩ := made
      exact Except.ok.inj (known.symm.trans (t.vocabulary_declared t' p.domain domainSet))
  | hindsight start settings dice memory made =>
      simp only [HindsightAgent.ofProblem, bind_ok_iff, pure_ok_iff] at made
      obtain ⟨t', domainSet, names, known, rfl⟩ := made
      exact Except.ok.inj (known.symm.trans (t.vocabulary_declared t' p.domain domainSet))

/-- States of a run have the same key when they have the same facts of declared predicates. If the actions write no
others, they then have the same facts. -/
theorem keys_tell_declared_facts_apart (p : Problem R) (t : Determinizer R) (vocabulary : List String)
    (used : KeyVocabulary p t vocabulary) (s s' : State R) (visited : p.Visits s) (visited' : p.Visits s') :
    ((s.project vocabulary).key = (s'.project vocabulary).key ↔
      ∀ predicate ∈ p.domain.predicateNames, s.factsOf predicate = s'.factsOf predicate) ∧
    ((∀ predicate, p.domain.writable.facts predicate → predicate ∈ p.domain.predicateNames) →
      ((s.project vocabulary).key = (s'.project vocabulary).key ↔ s.facts = s'.facts)) := by
  have regular := p.visited_regular s visited
  have regular' := p.visited_regular s' visited'
  have keys : (s.project vocabulary).key = (s'.project vocabulary).key ↔
      ∀ predicate ∈ p.domain.predicateNames, s.factsOf predicate = s'.factsOf predicate := by
    rw [used.declared]
    refine (State.kept_facts_iff regular regular' p.domain.predicateNames.contains).trans ?_
    simp only [List.contains_iff_mem]
  refine ⟨keys, fun declared => keys.trans ?_⟩
  rw [State.facts_iff regular regular']
  refine ⟨fun each predicate => ?_, fun each predicate _ => each predicate⟩
  by_cases written : p.domain.writable.facts predicate
  · exact each predicate (declared predicate written)
  · rw [(p.visited_writes s visited).facts predicate written, (p.visited_writes s' visited').facts predicate written]

open Problem in
theorem keys_tell_declared_facts_apart_trip :
    ∃ (memory : SimpleAgent ℚ Unit) (s : State ℚ),
      SimpleAgent.ofProblem trip (Determinizer.ofDice .allOutcome (Dice.always 0)) () = .ok memory ∧ trip.Visits s ∧
      (∀ predicate, trip.domain.writable.facts predicate → predicate ∈ trip.domain.predicateNames) ∧
      (s.project memory.vocabulary).key ≠ (trip.initialState.project memory.vocabulary).key := by
  have driven : (do
      let memory ← SimpleAgent.ofProblem trip (Determinizer.ofDice .allOutcome (Dice.always 0)) ()
      let s ← (trip.sample trip.initialState ⟨"drive", ["home", "work"]⟩ (Dice.always (1 / 4))).1
      pure (memory.policy, s.facts)).toOption = some ([], [⟨"at", ["work"]⟩, ⟨"road", ["home", "work"]⟩]) := by
    decide +kernel
  rw [to_option_iff] at driven
  simp only [bind_ok_iff, pure_ok_iff, Prod.mk.injEq] at driven
  obtain ⟨memory, made, s, sampled, -, facts⟩ := driven
  have visited : trip.Visits s := .step _ s ⟨"drive", ["home", "work"]⟩ (Dice.always (1 / 4)) _ .start
    (Prod.ext sampled rfl)
  have declared (predicate : String) (written : trip.domain.writable.facts predicate) :
      predicate ∈ trip.domain.predicateNames := by
    obtain ⟨a, known, modified⟩ := written
    obtain rfl := List.mem_singleton.mp known
    have every : ∀ name ∈ drive.effect.modifiedPredicates, name ∈ trip.domain.predicateNames := by decide +kernel
    exact every predicate modified
  obtain ⟨-, apart⟩ := keys_tell_declared_facts_apart trip _ _ (.simple () memory made) s trip.initialState visited
    .start
  refine ⟨memory, s, made, visited, declared, fun same => ?_⟩
  have start : trip.initialState.facts ≠ [⟨"at", ["work"]⟩, ⟨"road", ["home", "work"]⟩] := by decide +kernel
  exact start (((apart declared).mp same).symm.trans facts)

def iceText : String :=
  "(define (domain ice) (:requirements :probabilistic-effects :conditional-effects) (:predicates (there))
    (:action go :effect (probabilistic 0.5 (when (not (fallen)) (there)) 0.5 (fallen)))
    (:action rise :effect (not (fallen))))"

def crossText : String := "(define (problem cross) (:domain ice) (:init) (:goal (there)))"

/-- That somebody has fallen is not declared, so it does not show in the keys. -/
theorem keys_hide_undeclared_facts :
    ∃ (d : Domain Float) (p : Problem Float) (memory : SimpleAgent Float Unit) (s : State Float),
      Domain.parse iceText = .ok d ∧ Problem.parse d crossText = .ok p ∧
      SimpleAgent.ofProblem p (Determinizer.ofDice .allOutcome (Dice.always Number.zero)) () = .ok memory ∧
      p.Visits p.initialState ∧ p.Visits s ∧ p.initialState.facts = [] ∧ s.facts = [⟨"fallen", []⟩] ∧
      (s.project memory.vocabulary).key = (p.initialState.project memory.vocabulary).key := by
  have executes : (do
      let d ← Domain.parse (R := Float) iceText
      let p ← Problem.parse d crossText
      let memory ← SimpleAgent.ofProblem p (Determinizer.ofDice .allOutcome (Dice.always Number.zero)) ()
      let s ← (p.sample p.initialState ⟨"go", []⟩ (Dice.always (Number.ofDecimal 75 2))).1
      pure (p.initialState.facts, s.facts, (s.project memory.vocabulary).key,
        (p.initialState.project memory.vocabulary).key)).toOption = some ([], [⟨"fallen", []⟩], [], []) := by
    simp only [Domain.parse, Problem.parse, Source.Cursor.ofText]
    rw [iceText, crossText, String.toList_ofList, String.toList_ofList]
    decide +kernel
  rw [to_option_iff] at executes
  simp only [bind_ok_iff, pure_ok_iff, Prod.mk.injEq] at executes
  obtain ⟨d, parsed, p, parsed', memory, made, s, sampled, start, fallen, key, key'⟩ := executes
  exact ⟨d, p, memory, s, parsed, parsed', made, .start, .step _ s _ _ _ .start (Prod.ext sampled rfl), start, fallen,
    key.trans key'.symm⟩

end Keys

end Replan
