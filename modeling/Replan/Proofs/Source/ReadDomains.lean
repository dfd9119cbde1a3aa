import Replan.Proofs.Effect.Vocabulary
import Replan.Proofs.Source.FileChecks
import Replan.Proofs.Source.ReadFormulas
import Replan.Proofs.Source.SectionText

set_option autoImplicit false

namespace Replan

open Results

namespace Source

open Replan.Source.Parser

variable {R α : Type} {G : RequirementSet}

theorem yields_declaration :
    Yields (R := R) G declaration (fun entry => entry.2.Declaration (Opens G)) :=
  yields_parens (yields_bind yields_name fun _ isName =>
    yields_then_pure _ (yields_typed_list yields_variable) fun _ declares => ⟨isName, declares⟩)

theorem yields_clause {body : Parser R α} {P : α → Prop} (w : String) (yields : Yields G body P) :
    Yields G (clause w body) P :=
  yields_parens (yields_bind (yields_keyword w) fun _ _ => yields_cut yields)

theorem yields_licensed {body : Parser R α} {P : α → Prop} (w : String) (oneOf : RequirementSet)
    (yields : Yields G body P) : Yields G (licensed w oneOf body) (fun a => P a ∧ Opens G oneOf) :=
  yields_parens (yields_bind (yields_requires oneOf (yields_keyword w)) fun _ licensed =>
    yields_weaken (yields_cut yields) fun _ known => ⟨known, licensed.2⟩)

theorem yields_functions : Yields (R := R) G functionsSection
    (fun fs => (∀ f ∈ fs, f.Declaration (Opens G)) ∧ Opens G fluentRequirements) := by
  refine yields_licensed _ _ (yields_many (yields_bind yields_declaration fun entry declared => ?_))
  exact yields_then_pure _ (yields_opt (Q := fun _ => True) (yields_bind (yields_sign '-') fun _ _ =>
    yields_keyword "number") (fun _ _ => trivial) trivial) fun _ _ => declared

theorem yields_requirement : Yields (R := R) G anyRequirement (fun _ => True) := by
  refine yields_first_of _ (yields_as _ (yields_keyword _) trivial) fun q member => ?_
  obtain ⟨r, -, rfl⟩ := List.mem_map.mp member
  exact yields_as _ (yields_keyword _) trivial

def openedBy (known : RequirementSet) : Option RequirementSet → RequirementSet
  | none => known
  | some declared => RequirementSet.union known (RequirementSet.closure declared)

theorem requirements_opened (c next : Cursor) (found : Option RequirementSet)
    (done : (opt requirementsSection : Parser R _) c = .done found next) :
    RequirementSet.ofList (found.getD []) = found.getD [] ∧ next.requirements = openedBy c.requirements found := by
  rw [opt] at done
  cases reply : (requirementsSection : Parser R _) c with
  | miss e =>
      rw [reply] at done
      cases done
      exact ⟨rfl, rfl⟩
  | fail e => rw [reply] at done; cases done
  | done rs later =>
      rw [reply] at done
      cases done
      obtain ⟨declared, after, first, second⟩ := bind_done c _ rs reply
      have kept := (yields_parens (yields_bind (yields_keyword ":requirements") fun _ _ =>
        yields_cut (yields_many_one yields_requirement)) c declared after rfl first).2
      obtain ⟨u, last, declares, finished⟩ := bind_done after _ rs second
      obtain ⟨rfl, rfl⟩ := pure_done _ rs last _ finished
      cases declares
      refine ⟨RequirementSet.of_list_again declared, ?_⟩
      show RequirementSet.union after.requirements (RequirementSet.closure declared) = _
      rw [kept, openedBy, RequirementSet.closure_of_list]

theorem requirements_done (c next : Cursor) (found : Option RequirementSet) (start : c.requirements = [])
    (done : (opt requirementsSection : Parser R _) c = .done found next) :
    RequirementSet.ofList (found.getD []) = found.getD [] ∧
      next.requirements = RequirementSet.closure (found.getD []) := by
  obtain ⟨canonical, opened⟩ := requirements_opened c next found done
  refine ⟨canonical, ?_⟩
  rw [opened, start]
  cases found with
  | none => rfl
  | some declared => exact RequirementSet.union_nothing declared

variable [Number R]

theorem yields_action : Yields (R := R) G actionSection
    (fun entry => entry.1.Legible (Opens G) (fun _ => True) ∧ entry.2.map Prod.snd = entry.1.parameters ∧
      entry.1.origin = none ∧ entry.1.precondition.Legible (Opens G) fun _ => True) := by
  refine yields_named _ (yields_clause _ (yields_bind yields_name fun entry isName => ?_))
  refine yields_bind (P := fun found => Declares IsVariable (Opens G) ((found.getD []).map Prod.snd))
    (yields_opt (yields_bind (yields_keyword _) fun _ _ => yields_parens (yields_typed_list yields_variable))
      (fun _ => id) (by simp [Declares])) fun parameters declares => ?_
  refine yields_bind (P := fun found => (found.getD .always).Legible (Opens G) fun _ => True)
    (yields_opt (yields_bind (yields_keyword _) fun _ _ => yields_query) (fun _ => id) trivial) fun precondition condition => ?_
  refine yields_then_pure (P := fun found => (found.getD .skip).Legible (Opens G) fun _ => True) _
    (yields_opt (yields_bind (yields_keyword _) fun _ _ => yields_effect) (fun _ => id) trivial) fun effect known => ?_
  exact ⟨⟨isName, declares, fun _ => condition, known⟩, rfl, rfl, condition⟩

structure FileReads (file : DomainFile R) (licence : RequirementSet → Prop) : Prop where
  types : Declares IsName licence (file.types.map Prod.snd)
  typing : file.types ≠ [] → licence [.typing]
  constants : Declares IsName licence (file.constants.map Prod.snd)
  predicates : ∀ entry ∈ file.predicates, entry.2.Declaration licence
  functions : ∀ f ∈ file.functions, f.Declaration licence ∧ licence fluentRequirements
  actions : ∀ entry ∈ file.actions, entry.1.Legible licence (fun _ => True) ∧
    entry.2.map Prod.snd = entry.1.parameters ∧ entry.1.origin = none ∧
    entry.1.precondition.Legible licence fun _ => True

theorem yields_sections (n : String) (rs : RequirementSet) : Yields (R := R) G (do
    let types ← opt (licensed ":types" [.typing] (typedList name))
    let constants ← opt (clause ":constants" (typedList name))
    let predicates ← opt predicatesSection
    let functions ← opt functionsSection
    let actions ← many actionSection
    pure
      { name := n
        requirements := rs
        types := types.getD []
        constants := constants.getD []
        predicates := predicates.getD []
        functions := functions.getD []
        actions })
    (fun file => file.name = n ∧ file.requirements = rs ∧ FileReads file (Opens G)) := by
  refine yields_bind (P := fun found => Declares IsName (Opens G) ((found.getD []).map Prod.snd) ∧
      (found.getD [] ≠ [] → Opens G [.typing]))
    (yields_opt (yields_licensed _ _ (yields_typed_list yields_name)) (fun _ known => ⟨known.1, fun _ => known.2⟩)
      (by simp [Declares])) fun types typed => ?_
  refine yields_bind (P := fun found => Declares IsName (Opens G) ((found.getD []).map Prod.snd))
    (yields_opt (yields_clause _ (yields_typed_list yields_name)) (fun _ => id) (by simp [Declares])) fun constants objects => ?_
  refine yields_bind (P := fun found => ∀ entry ∈ found.getD [], entry.2.Declaration (Opens G))
    (yields_opt (yields_clause _ (yields_many yields_declaration)) (fun _ => id) (by simp)) fun predicates facts => ?_
  refine yields_bind (P := fun found => ∀ f ∈ found.getD [], f.Declaration (Opens G) ∧ Opens G fluentRequirements)
    (yields_opt yields_functions (fun _ known f member => ⟨known.1 f member, known.2⟩) (by simp)) fun functions fluents => ?_
  exact yields_then_pure _ (yields_many yields_action) fun actions steps =>
    ⟨rfl, rfl, typed.1, typed.2, objects, facts, fluents, steps⟩

theorem domain_file_done (c next : Cursor) (file : DomainFile R) (start : c.requirements = [])
    (done : domainFile c = .done file next) :
    IsName file.name ∧ RequirementSet.ofList file.requirements = file.requirements ∧
      FileReads file (Opens (RequirementSet.closure file.requirements)) := by
  obtain ⟨inside, later, opened, done⟩ := parens_done c next file done
  have first := (yields_sign '(' c () inside start opened).2
  obtain ⟨u, c₁, define, done⟩ := bind_done inside later file done
  have second := (yields_keyword "define" inside u c₁ first define).2
  obtain ⟨entry, c₂, header, done⟩ := bind_done c₁ later file done
  obtain ⟨isName, third⟩ := yields_clause "domain" yields_name c₁ entry c₂ second header
  obtain ⟨rs, c₃, declared, done⟩ := bind_done c₂ later file done
  obtain ⟨canonical, kept⟩ := requirements_done c₂ c₃ rs third declared
  obtain ⟨⟨name, requirements, reads⟩, -⟩ := yields_sections entry.2 (rs.getD []) c₃ file later kept done
  rw [name, requirements]
  exact ⟨isName, canonical, reads⟩

omit [Number R] in
theorem parse_all_done {p : Parser R α} (start : Cursor) (a : α) (parsed : parseAll p start = .ok a) :
    ∃ c next, (blanks : Parser R Unit) start = .done () c ∧ c.requirements = start.requirements ∧
      p c = .done a next := by
  rw [parseAll] at parsed
  split at parsed
  · next b next done =>
      obtain ⟨u, c, skipped, done⟩ := bind_done start next b done
      split at parsed
      · cases parsed
        exact ⟨c, next, skipped, (yields_blanks start u c rfl skipped).2, done⟩
      · cases parsed
  · cases parsed
  · cases parsed

theorem file_legible (file : DomainFile R) (isName : IsName file.name)
    (canonical : RequirementSet.ofList file.requirements = file.requirements)
    (reads : FileReads file (Opens (RequirementSet.closure file.requirements))) (checked : file.Checked) :
    file.domain.Legible (Opens (RequirementSet.closure file.requirements)) (fun _ => True) where
  name := isName
  requirements := canonical
  types pair member := by
    replace member : pair ∈ (hierarchy file.types).parents := member
    rw [DomainFile.hierarchy_parents file checked] at member
    obtain ⟨t, listed, rfl⟩ := List.mem_map.mp member
    obtain ⟨child, typed⟩ := reads.types t listed
    refine ⟨child, ?_, reads.typing fun none => ?_⟩
    · cases kind : t.kind with
      | none =>
          show IsName "object"
          decide
      | some k => exact (typed k kind).1
    · rw [none] at listed
      cases listed
  constants := reads.constants
  predicates a member := by
    obtain ⟨entry, listed, rfl⟩ := List.mem_map.mp member
    exact reads.predicates entry listed
  functions := reads.functions
  actions a member := by
    obtain ⟨entry, listed, rfl⟩ := List.mem_map.mp member
    exact (reads.actions entry listed).1

theorem file_declared (file : DomainFile R) (licence : RequirementSet → Prop) (reads : FileReads file licence)
    (checked : file.Checked) : file.domain.Declared := by
  have parents := DomainFile.hierarchy_parents file checked
  constructor
  · show ((hierarchy file.types).parents.map Prod.fst).Nodup
    rw [parents, List.map_map]
    exact checked.distinctTypes
  · intro t member kind typed
    obtain ⟨pair, listed, rfl⟩ := List.mem_map.mp member
    replace listed : pair ∈ (hierarchy file.types).parents := listed
    rw [parents] at listed
    obtain ⟨t, known, rfl⟩ := List.mem_map.mp listed
    cases typed
    cases given : t.kind with
    | none => rfl
    | some k => exact checked.types t known k given
  · exact checked.distinctConstants
  · exact checked.constants
  · exact checked.distinctPredicates
  · intro a member
    obtain ⟨entry, listed, rfl⟩ := List.mem_map.mp member
    rw [← (reads.actions entry listed).2.1]
    exact checked.parameters entry listed

end Source

section Parsed

variable {R : Type} [Number R]

theorem Domain.parsed_file (text : String) (d : Domain R) (parsed : Domain.parse text = .ok d) :
    ∃ file : Source.DomainFile R, d = file.domain ∧ file.Checked ∧ Source.IsName file.name ∧
      RequirementSet.ofList file.requirements = file.requirements ∧
      Source.FileReads file (Source.Opens (RequirementSet.closure file.requirements)) := by
  obtain ⟨file, read, checks⟩ := (bind_ok_iff _ _ d).mp parsed
  obtain ⟨checked, rfl⟩ := (Source.DomainFile.check_ok_iff file d).mp checks
  obtain ⟨c, next, -, start, done⟩ := Source.parse_all_done _ file read
  exact ⟨file, rfl, checked, Source.domain_file_done c next file start done⟩

theorem Domain.parsed_legible (text : String) (d : Domain R) (parsed : Domain.parse text = .ok d) :
    d.Legible (Source.Opens (RequirementSet.closure d.requirements)) (fun _ => True) ∧ d.Declared ∧
      ∀ a ∈ d.actions, a.origin = none := by
  obtain ⟨file, rfl, checked, isName, canonical, reads⟩ := d.parsed_file text parsed
  refine ⟨Source.file_legible file isName canonical reads checked, Source.file_declared file _ reads checked, ?_⟩
  intro a member
  obtain ⟨entry, listed, rfl⟩ := List.mem_map.mp member
  exact (reads.actions entry listed).2.2.1

theorem Domain.parsed_preconditions (text : String) (d : Domain R) (parsed : Domain.parse text = .ok d) :
    ∀ a ∈ d.actions, a.precondition.Legible (Source.Opens (RequirementSet.closure d.requirements)) fun _ => True := by
  obtain ⟨file, rfl, -, -, -, reads⟩ := d.parsed_file text parsed
  intro a member
  obtain ⟨entry, listed, rfl⟩ := List.mem_map.mp member
  exact (reads.actions entry listed).2.2.2

end Parsed

section Numeric

variable {R : Type} {licence : RequirementSet → Prop} {number : R → Prop}

theorem Query.expression_numeric (q : Query R) (expression : q.IsExpression licence number) :
    q.Numeric ∧ q.Within (Vocabulary.numericOperands R) := by
  induction q with
  | fluent | constant => exact ⟨trivial, trivial⟩
  | arithmetic op left right leftIH rightIH =>
      have first := leftIH expression.1
      have second := rightIH expression.2
      exact ⟨⟨first.1, second.1⟩, first, second⟩
  | _ => cases expression

theorem Query.legible_numeric (q : Query R) (legible : q.Legible licence number) :
    q.Within (Vocabulary.numericOperands R) := by
  induction q with
  | always | fact => trivial
  | comparison op left right _ _ => exact ⟨expression_numeric left legible.1, expression_numeric right legible.2⟩
  | conj parts ih =>
      rw [Legible, legible_list] at legible
      exact (within_list _ parts).mpr fun q member => ih q member (legible.2 q member)
  | disj parts ih =>
      rw [Legible, legible_list] at legible
      exact (within_list _ parts).mpr fun q member => ih q member (legible.2 q member)
  | neg body ih => exact ih legible
  | imply premise conclusion first second => exact ⟨first legible.2.1, second legible.2.2⟩
  | forAll vars body ih => exact ⟨trivial, ih legible.2.2⟩
  | forSome vars body ih => exact ⟨trivial, ih legible.2.2⟩
  | _ => cases legible

variable [Number R]

theorem Effect.legible_numeric (e : Effect R) (legible : e.Legible licence number) :
    e.Within (Vocabulary.numericOperands R) := by
  induction e with
  | skip | add | delete => trivial
  | conj parts ih =>
      rw [Legible, legible_list] at legible
      exact (within_list _ parts).mpr fun e member => ih e member (legible.2 e member)
  | forAll vars body ih => exact ⟨trivial, ih legible.2.2⟩
  | when condition body ih => exact ⟨condition.legible_numeric legible.2.1, ih legible.2.2⟩
  | assign op fluent value => exact ⟨trivial, value.expression_numeric legible.2.2⟩
  | probabilistic outcomes ih =>
      obtain ⟨-, -, -, each⟩ := legible
      rw [legible_outcomes] at each
      exact ⟨trivial, (within_outcomes _ outcomes).mpr fun outcome member => ih outcome member (each outcome member).2⟩

theorem Domain.parsed_numeric (text : String) (d : Domain R) (parsed : Domain.parse text = .ok d) :
    ∀ a ∈ d.actions, a.effect.Within (Vocabulary.numericOperands R) := fun a member =>
  a.effect.legible_numeric ((Domain.parsed_legible text d parsed).1.actions a member).effect

end Numeric

end Replan
