import Replan.Proofs.Source.ProblemText
import Replan.Proofs.Source.ReadDomains

set_option autoImplicit false

namespace Replan

open Results

namespace Source

open Replan.Source.Parser

variable {R α : Type} {G : RequirementSet}

theorem ground_atom (a : Atom) (reads : AtomReads a) : a.ground.atom = a := by
  obtain ⟨name, args⟩ := a
  have untyped : args.map (Term.untyped ∘ Term.name) = args := by
    refine (List.map_congr_left fun t member => ?_).trans (List.map_id _)
    rw [Function.comp_apply, Term.untyped, ← (reads.2 t member).1]
    rfl
  rw [Ground.atom, Atom.ground, List.map_map, untyped]

structure Gathered (init : Init R) (known : Ground → Prop) : Prop where
  facts : ∀ fact ∈ init.facts, known fact
  values : ∀ entry ∈ init.values, known entry.1
  ordered : init.Ordered

theorem enter_gathered (known : Ground → Prop) (init : Init R) (element : Ground × Option R) (gathered : Gathered init known)
    (new : known element.1) : Gathered (enter init element) known := by
  obtain ⟨fact, value⟩ := element
  cases value with
  | none =>
      refine ⟨fun g member => ?_, gathered.values, Sorted.insert_ordered fact init.facts gathered.ordered.facts,
        gathered.ordered.values⟩
      rcases (Sorted.mem_insert fact g init.facts).mp member with rfl | old
      · exact new
      · exact gathered.facts g old
  | some x =>
      have keys : (enter init (fact, some x)).values.map Prod.fst = Sorted.insert fact (init.values.map Prod.fst) :=
        Sorted.put_keys fact x init.values
      refine ⟨gathered.facts, fun entry member => ?_, gathered.ordered.facts, ?_⟩
      · have listed := List.mem_map_of_mem (f := Prod.fst) member
        rw [keys] at listed
        rcases (Sorted.mem_insert fact entry.1 _).mp listed with same | old
        · rw [same]
          exact new
        · obtain ⟨before, there, same⟩ := List.mem_map.mp old
          rw [← same]
          exact gathered.values before there
      · rw [keys]
        exact Sorted.insert_ordered fact _ gathered.ordered.values

theorem elements_gather (known : Ground → Prop) (elements : List (Ground × Option R))
    (each : ∀ element ∈ elements, known element.1) : Gathered (initOfElements elements) known := by
  suffices ∀ init, Gathered init known → Gathered (elements.foldl enter init) known from
    this ⟨[], []⟩ ⟨by simp, by simp, .nil, .nil⟩
  induction elements with
  | nil => exact fun init => id
  | cons element elements ih =>
      intro init gathered
      exact ih (fun other member => each other (List.mem_cons_of_mem element member)) _
        (enter_gathered known init element gathered (each element List.mem_cons_self))

variable [Number R]

theorem yields_element : Yields (R := R) G initElement (fun element => AtomReads element.1.atom) := by
  have kept (a : Atom) (reads : AtomReads a) : AtomReads a.ground.atom := by rwa [ground_atom a reads]
  exact yields_either
    (yields_parens (yields_bind (yields_keyword "=") fun _ _ => yields_bind yields_atom fun a reads =>
      yields_then_pure _ yields_number fun _ _ => kept a reads))
    (yields_then_pure _ yields_atom fun a reads => kept a reads)

theorem yields_init : Yields (R := R) G initSection (Gathered · fun fact => AtomReads fact.atom) :=
  yields_then_pure _ (yields_clause _ (yields_many yields_element)) fun elements each => elements_gather _ elements each

omit [Number R] in
theorem yields_direction : Yields (R := R) G direction (fun _ => True) :=
  yields_either (yields_as _ (yields_keyword _) trivial) (yields_as _ (yields_keyword _) trivial)

theorem yields_metric : Yields (R := R) G metricSection
    (fun metric => metric.expression.IsExpression (Opens G) fun _ => True) :=
  yields_clause _ (yields_bind yields_direction fun _ _ => yields_then_pure _ yields_expression fun _ => id)

structure ProblemReads (file : ProblemFile R) (licence : RequirementSet → Prop) : Prop where
  objects : Declares IsName licence (file.objects.map Prod.snd)
  init : Gathered file.init fun fact => AtomReads fact.atom
  goal : file.goal.query.Legible licence fun _ => True
  reward : ∀ reward ∈ file.goal.reward, licence [.rewards]
  metric : ∀ metric ∈ file.goal.metric, metric.expression.IsExpression licence fun _ => True

theorem yields_problem_sections (n : String) (domain : Span × String) : Yields (R := R) G (do
    let objects ← opt (clause ":objects" (typedList name))
    let init ← initSection
    let goal ← clause ":goal" query
    let reward ← opt (licensed ":goal-reward" [.rewards] number)
    let metric ← opt metricSection
    pure
      { name := n
        domain
        objects := objects.getD []
        init
        goal := ⟨goal, reward, metric⟩ })
    (fun file => file.name = n ∧ file.domain = domain ∧ ProblemReads file (Opens G)) := by
  refine yields_bind (P := fun found => Declares IsName (Opens G) ((found.getD []).map Prod.snd))
    (yields_opt (yields_clause _ (yields_typed_list yields_name)) (fun _ => id) (by simp [Declares])) fun objects declares => ?_
  refine yields_bind yields_init fun init gathered => yields_bind (yields_clause _ yields_query) fun goal condition => ?_
  refine yields_bind (P := fun found => ∀ reward ∈ found, Opens G [.rewards])
    (yields_opt (yields_licensed _ _ yields_number) (fun _ known _ _ => known.2) (by simp)) fun reward earned => ?_
  refine yields_then_pure (P := fun found => ∀ metric ∈ found, metric.expression.IsExpression (Opens G) fun _ => True) _
    (yields_opt yields_metric (fun m known => ?_) (by simp)) fun metric numeric => ?_
  · rintro _ ⟨⟩
    exact known
  · exact ⟨rfl, rfl, declares, gathered, condition, earned, numeric⟩

omit [Number R] in
def problemHead : Parser R (Option RequirementSet) := do
  sign '('
  keyword "define"
  let _ ← clause "problem" name
  let _ ← clause ":domain" name
  opt requirementsSection

theorem problem_file_done (c next : Cursor) (file : ProblemFile R) (done : problemFile c = .done file next) :
    IsName file.name ∧ IsName file.domain.2 ∧ ∃ rs behind, (problemHead : Parser R _) c = .done rs behind ∧
      ProblemReads file (Opens (openedBy c.requirements rs)) := by
  obtain ⟨inside, later, opened, done⟩ := parens_done c next file done
  have first := (yields_sign '(' c () inside rfl opened).2
  obtain ⟨u, c₁, define, done⟩ := bind_done inside later file done
  have second := (yields_keyword "define" inside u c₁ first define).2
  obtain ⟨entry, c₂, header, done⟩ := bind_done c₁ later file done
  obtain ⟨isName, third⟩ := yields_clause "problem" yields_name c₁ entry c₂ second header
  obtain ⟨domain, c₃, footer, done⟩ := bind_done c₂ later file done
  obtain ⟨isDomain, fourth⟩ := yields_clause ":domain" yields_name c₂ domain c₃ third footer
  obtain ⟨rs, c₄, declared, done⟩ := bind_done c₃ later file done
  obtain ⟨-, more⟩ := requirements_opened c₃ c₄ rs declared
  rw [fourth] at more
  obtain ⟨⟨name, same, reads⟩, -⟩ := yields_problem_sections entry.2 domain c₄ file later more done
  rw [name, same]
  refine ⟨isName, isDomain, rs, c₄, ?_, reads⟩
  rw [problemHead, done_bind opened, done_bind define, done_bind header, done_bind footer, declared]

omit [Number R] in
theorem problem_file_legible (d : Domain R) (file : ProblemFile R) (licence : RequirementSet → Prop) (isName : IsName file.name)
    (isDomain : IsName file.domain.2) (reads : ProblemReads file licence) (checked : file.Checked d) :
    (file.problem d).Legible licence (fun _ => True) ∧ (file.problem d).Declared := by
  constructor
  · refine ⟨isName, ?_, reads.objects, reads.init.facts, fun entry member => ⟨reads.init.values entry member, trivial⟩,
      reads.init.ordered, reads.goal, fun reward member => ⟨trivial, reads.reward reward member⟩, reads.metric⟩
    rw [ProblemFile.problem, ← checked.domain]
    exact isDomain
  · exact ⟨checked.distinct, checked.fresh, checked.types⟩

end Source

section Parsed

variable {R : Type} [Number R]

def Problem.declaredBy (d : Domain R) (text : String) : Option RequirementSet :=
  let head : Source.Parser R (Option RequirementSet) := do
    Source.blanks
    Source.problemHead
  match head (Source.Cursor.ofText text true (RequirementSet.closure d.requirements)) with
  | .done rs _ => rs
  | _ => none

theorem Problem.parsed_licence (d : Domain R) (text : String) (p : Problem R) (parsed : Problem.parse d text = .ok p) :
    p.domain = d ∧ p.Declared ∧
      p.Legible (Source.Opens (Source.openedBy (RequirementSet.closure d.requirements) (declaredBy d text)))
        fun _ => True := by
  obtain ⟨file, read, checks⟩ := (bind_ok_iff _ _ p).mp parsed
  obtain ⟨checked, rfl⟩ := (Source.ProblemFile.check_ok_iff d file p).mp checks
  obtain ⟨c, next, skipped, start, done⟩ := Source.parse_all_done _ file read
  obtain ⟨isName, isDomain, rs, behind, head, reads⟩ := Source.problem_file_done c next file done
  have own : declaredBy d text = rs := by
    rw [declaredBy, Source.Parser.done_bind skipped, head]
  obtain ⟨legible, declared⟩ := Source.problem_file_legible d file _ isName isDomain reads checked
  rw [start] at legible
  rw [own]
  exact ⟨rfl, declared, legible⟩

theorem Problem.parsed_legible (d : Domain R) (text : String) (p : Problem R) (parsed : Problem.parse d text = .ok p) :
    p.domain = d ∧ p.Declared ∧ ∃ opened, p.Legible (Source.Opens opened) fun _ => True := by
  obtain ⟨same, declared, legible⟩ := p.parsed_licence d text parsed
  exact ⟨same, declared, _, legible⟩

end Parsed

end Replan
