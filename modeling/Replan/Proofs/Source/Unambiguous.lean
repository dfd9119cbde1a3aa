import Replan.Proofs.Determinize.Decoding
import Replan.Proofs.Hierarchy
import Replan.Proofs.Source.ReadDomains

set_option autoImplicit false

namespace Replan

open Results Source

section Names

variable {R : Type} [Number R]

-- The only action of the domain that the name of a variant is made of. Tracing a step of the variant finds it.
structure Domain.DecodesTo (d : Domain R) (t : Determinizer R) (v a : Action R) : Prop where
  listed : a ∈ d.actions
  only : ∀ b ∈ d.actions, ∀ i, v.name = variantName b.name i → b = a
  traced : ∀ args, args.length = v.parameters.length → ∃ i p, v.name = variantName a.name i ∧
    t.trace ⟨v.name, args⟩ = .ok ⟨i, p, ⟨a.name, args.take a.parameters.length⟩⟩

omit [Number R] in
theorem Domain.lookup_first (d : Domain R) (a : Action R) (member : a ∈ d.actions) :
    ∃ first ∈ d.actions, first.name = a.name ∧ d.action? a.name = some first := by
  have present : (d.action? a.name).isSome = true :=
    List.find?_isSome.mpr ⟨a, member, beq_self_eq_true a.name⟩
  obtain ⟨first, found⟩ := Option.isSome_iff_exists.mp present
  obtain ⟨listed, named⟩ := action_found d a.name first found
  exact ⟨first, listed, named, found⟩

theorem variants_decode (t t' : Determinizer R) (d : Domain R) (domainSet : t.setDomain d = .ok t')
    (distinct : (d.actions.map Action.name).Nodup) :
    ∃ versions, t'.versions = .ok versions ∧ ∀ v ∈ versions.determinized.actions,
      versions.determinized.action? v.name = some v ∧ ∃ a, d.DecodesTo t' v a := by
  obtain ⟨versions, current, -, preprocessed, actions, names⟩ := domain_set t t' d domainSet distinct
  have each := (Domain.preprocess_actions d _ preprocessed).1
  refine ⟨versions, current, fun v listed => ⟨action_by_name _ names v listed, ?_⟩⟩
  have inFamily := listed
  rw [actions] at inFamily
  obtain ⟨b, member, ofBase⟩ := List.mem_flatMap.mp inFamily
  obtain ⟨a, known, became⟩ := forall_two_right _ _ _ each b member
  obtain ⟨named, parameters, -⟩ := Action.preprocess_keeps a b became
  obtain ⟨i, outcome, -, rfl⟩ := t.strategy.mem_variants b v ofBase
  have commits := (t.strategy.commit_commits b i outcome).name
  rw [named] at commits
  refine ⟨a, known, fun c other j same => ?_, fun args arity => ⟨i, outcome.1, commits, ?_⟩⟩
  · rw [commits] at same
    exact List.inj_on_of_nodup_map distinct other known (variant_name_injective _ _ _ _ same).1.symm
  · rw [(trace_commit t' versions current names t.strategy b i outcome listed args arity).2, named, parameters]

omit [Number R] in
theorem Domain.declared_closed (d : Domain R) (declared : d.Declared) : d.types.Closed := by
  intro pair listed
  exact declared.types ⟨pair.1, some pair.2⟩ (List.mem_map_of_mem listed) pair.2 rfl

/-- Types, constants and predicates of an accepted domain have one declaration each, and the types in use are known.
If no two actions share a name, looking one up finds it, and every variant has one decoding. Circles among the types
are not ruled out. -/
theorem accepted_domains_are_unambiguous (text : String) (d : Domain R) (parsed : Domain.parse text = .ok d) :
    (d.types.parents.map Prod.fst).Nodup ∧ (d.constants.map Term.name).Nodup ∧ (d.predicates.map Atom.name).Nodup ∧
      Domain.Known d.types d.constants ∧ (∀ a ∈ d.actions, Domain.Known d.types a.parameters) ∧
      (∀ a ∈ d.actions, ∃ first ∈ d.actions, first.name = a.name ∧ d.action? a.name = some first) ∧
      ((d.actions.map Action.name).Nodup →
        (∀ a ∈ d.actions, d.action? a.name = some a) ∧
          ∀ t t' : Determinizer R, t.setDomain d = .ok t' → ∃ versions, t'.versions = .ok versions ∧
            ∀ v ∈ versions.determinized.actions,
              versions.determinized.action? v.name = some v ∧ ∃ a, d.DecodesTo t' v a) ∧
      (d.types.Acyclic ↔ d.types.parent? "object" = none ∧
        ∀ kind, d.types.contains kind = true → "object" ∈ d.types.ancestors kind) := by
  have declared := (Domain.parsed_legible text d parsed).2.1
  refine ⟨declared.distinctTypes, declared.distinctConstants, declared.distinctPredicates, declared.constants,
    declared.parameters, d.lookup_first, fun distinct => ⟨?_, ?_⟩, d.types.acyclic_iff (d.declared_closed declared)⟩
  · exact action_by_name d.actions distinct
  · exact fun t t' domainSet => variants_decode t t' d domainSet distinct

end Names

def kilnText : String :=
  "(define (domain kiln) (:requirements :typing :probabilistic-effects) (:types pot - clay clay)
    (:constants urn - pot) (:predicates (fired ?p - pot) (broken ?p - clay))
    (:action fire :parameters (?p - pot) :effect (probabilistic 3/4 (fired ?p) 1/4 (broken ?p))))"

theorem accepted_domains_are_unambiguous_kiln : ∃ (d : Domain ℚ) (t' : Determinizer ℚ) (v a : Action ℚ),
    Domain.parse kilnText = .ok d ∧ d.types.ancestors "pot" = ["pot", "clay", "object"] ∧ d.types.Acyclic ∧
      Domain.Known d.types d.constants ∧
      (Determinizer.ofDice .allOutcome (Dice.always (0 : ℚ))).setDomain d = .ok t' ∧
      v.name = "fire_o1" ∧ a.name = "fire" ∧ d.action? "fire" = some a ∧ d.DecodesTo t' v a := by
  have run : (do
      let d ← Domain.parse (R := ℚ) kilnText
      let t' ← (Determinizer.ofDice .allOutcome (Dice.always (0 : ℚ))).setDomain d
      let versions ← t'.versions
      pure (d.types, d.actions.map Action.name, versions.determinized.actions.map Action.name)).toOption =
        some (⟨[("pot", "clay"), ("clay", "object")]⟩, ["fire"], ["fire_o0", "fire_o1"]) := by
    rw [Domain.parse, Cursor.ofText, kilnText, String.toList_ofList]
    decide +kernel
  rw [to_option_iff] at run
  simp only [bind_ok_iff, pure_ok_iff, Prod.mk.injEq] at run
  obtain ⟨d, parsed, t', domainSet, versions, current, types, names, variants⟩ := run
  obtain ⟨-, -, -, known, -, -, lookups, acyclic⟩ := accepted_domains_are_unambiguous kilnText d parsed
  obtain ⟨self, decoded⟩ := lookups (by rw [names]; decide)
  obtain ⟨versions', current', each⟩ := decoded _ t' domainSet
  cases current.symm.trans current'
  obtain ⟨v, listed, named⟩ : ∃ v ∈ versions.determinized.actions, v.name = "fire_o1" := by
    rw [← List.mem_map, variants]
    decide
  obtain ⟨-, a, decodes⟩ := each v listed
  have base : a.name = "fire" := by
    have inNames : a.name ∈ d.actions.map Action.name := List.mem_map_of_mem decodes.listed
    rwa [names, List.mem_singleton] at inNames
  refine ⟨d, t', v, a, parsed, ?_, acyclic.mpr ⟨?_, fun kind declared => ?_⟩, known, domainSet, named, base, ?_,
    decodes⟩
  · rw [types]
    decide
  · rw [types]
    rfl
  · rw [types] at declared ⊢
    rcases (Hierarchy.contains_iff _ kind).mp declared with rfl | ⟨parent, link⟩
    · decide
    · have pair := Substitution.lookup_mem _ kind parent link
      simp only [List.mem_cons, List.not_mem_nil, or_false, Prod.mk.injEq] at pair
      rcases pair with ⟨rfl, rfl⟩ | ⟨rfl, rfl⟩ <;> decide
  · rw [← base]
    exact self a decodes.listed

def loopsText : String := "(define (domain loops) (:requirements :typing) (:types a - b b - a))"

def namesakesText : String :=
  "(define (domain namesakes) (:predicates (p) (q)) (:action go :effect (p)) (:action go :effect (q)))"

/-- Two types that are each other's parents, and two actions of one name, of which the lookup finds the first only. -/
theorem loops_and_namesakes_are_accepted :
    (∃ d : Domain Float, Domain.parse loopsText = .ok d ∧ ¬d.types.Acyclic) ∧
      ∃ (d : Domain Float) (first second : Action Float), Domain.parse namesakesText = .ok d ∧ d.actions = [first, second] ∧
        first.name = second.name ∧ first.effect.text = "(p)" ∧ second.effect.text = "(q)" ∧
        d.action? second.name ≠ some second := by
  have loops : ((Domain.parse (R := Float) loopsText).map Domain.types).toOption = some ⟨[("a", "b"), ("b", "a")]⟩ := by
    rw [Domain.parse, Cursor.ofText, loopsText, String.toList_ofList]
    decide +kernel
  have namesakes : ((Domain.parse (R := Float) namesakesText).map fun d =>
      d.actions.map fun a => (a.name, a.effect.text)).toOption = some [("go", "(p)"), ("go", "(q)")] := by
    rw [Domain.parse, Cursor.ofText, namesakesText, String.toList_ofList]
    decide +kernel
  rw [to_option_iff] at loops namesakes
  constructor
  · obtain ⟨d, parsed, types⟩ := (map_ok_iff _ _ _).mp loops
    have up : d.types.Link "a" "b" := by rw [types]; rfl
    have back : d.types.Link "b" "a" := by rw [types]; rfl
    exact ⟨d, parsed, fun acyclic => acyclic "a" (.tail (.single up) back)⟩
  · obtain ⟨d, parsed, listed⟩ := (map_ok_iff _ _ _).mp namesakes
    obtain ⟨first, others, actions, ofFirst, rest⟩ := List.map_eq_cons_iff.mp listed
    obtain ⟨second, rfl, ofSecond⟩ := List.map_eq_singleton_iff.mp rest
    rw [Prod.mk.injEq] at ofFirst ofSecond
    obtain ⟨firstNamed, makesP⟩ := ofFirst
    obtain ⟨secondNamed, makesQ⟩ := ofSecond
    refine ⟨d, first, second, parsed, actions, firstNamed.trans secondNamed.symm, makesP, makesQ, fun found => ?_⟩
    have lookup : d.action? second.name = some first := by
      rw [Domain.action?, actions, List.find?_cons_of_pos (by simp [firstNamed, secondNamed])]
    rw [← Option.some.inj (lookup.symm.trans found), makesP] at makesQ
    exact absurd makesQ (by decide)

end Replan
