import Replan.Proofs.Source.DomainText
import Replan.Proofs.Source.ProblemDeclarations

set_option autoImplicit false

namespace Replan

open Results

theorem Ground.atom_ground (g : Ground) : g.atom.ground = g := by
  rw [atom, Atom.ground, List.map_map]
  exact congrArg (Ground.mk g.name) (List.map_id _)

theorem Ground.atom_text (g : Ground) : g.atom.text = g.text := by rw [Atom.text, atom_ground]

namespace Source

open Replan.Source.Parser

variable {R α : Type} {G : RequirementSet} {T : List Char → Prop}

def enter (init : Init R) (element : Ground × Option R) : Init R :=
  match element.2 with
  | none => { init with facts := Sorted.insert element.1 init.facts }
  | some value => { init with values := Sorted.put element.1 value init.values }

theorem init_of_elements (elements : List (Ground × Option R)) : initOfElements elements = elements.foldl enter ⟨[], []⟩ :=
  rfl

theorem enter_facts (facts : List Ground) (init : Init R) (ordered : (init.facts ++ facts).Pairwise (· < ·)) :
    (facts.map fun fact => (fact, none)).foldl enter init = { init with facts := init.facts ++ facts } := by
  induction facts generalizing init with
  | nil => rw [List.append_nil]; rfl
  | cons fact facts ih =>
      have above : ∀ g ∈ init.facts, g < fact := fun g member =>
        (List.pairwise_append.mp ordered).2.2 g member fact List.mem_cons_self
      have next : (enter init (fact, none)).facts = init.facts ++ [fact] := Sorted.insert_last fact init.facts above
      rw [List.map_cons, List.foldl_cons, ih, next, List.append_assoc]
      · rfl
      · rw [next, List.append_assoc]
        exact ordered

theorem enter_values (values : List (Ground × R)) (init : Init R)
    (ordered : ((init.values ++ values).map Prod.fst).Pairwise (· < ·)) :
    (values.map fun entry => (entry.1, some entry.2)).foldl enter init = { init with values := init.values ++ values } := by
  induction values generalizing init with
  | nil => rw [List.append_nil]; rfl
  | cons entry values ih =>
      have above : ∀ e ∈ init.values, e.1 < entry.1 := by
        rw [List.map_append, List.map_cons] at ordered
        exact fun e member => (List.pairwise_append.mp ordered).2.2 e.1 (List.mem_map_of_mem member) entry.1 List.mem_cons_self
      have next : (enter init (entry.1, some entry.2)).values = init.values ++ [entry] :=
        Sorted.put_last entry.1 entry.2 init.values above
      rw [List.map_cons, List.foldl_cons, ih, next, List.append_assoc]
      · rfl
      · rw [next, List.append_assoc]
        exact ordered

theorem elements_gathered (init : Init R) (ordered : init.Ordered) : initOfElements init.elements = init := by
  rw [init_of_elements, Init.elements, List.foldl_append, enter_facts init.facts ⟨[], []⟩ ordered.facts]
  exact enter_values init.values ⟨init.facts, []⟩ ordered.values

variable [Number R] {finite : R → Prop}

theorem elements_as_read (init : Init R) :
    init.elements.map (fun element => (element.1, element.2.map Number.unsigned)) = init.asRead.elements := by
  rw [Init.elements, Init.elements, List.map_append, List.map_map, List.map_map, Init.asRead, List.map_map]
  rfl

theorem as_read_ordered (init : Init R) (ordered : init.Ordered) : init.asRead.Ordered where
  facts := ordered.facts
  values := by
    rw [Init.asRead, List.map_map]
    exact ordered.values

def elementText (element : Ground × Option R) : List Char :=
  match element.2 with
  | none => element.1.text.toList
  | some x => '(' :: (("=".toList ++ (' ' :: element.1.text.toList ++ ' ' :: (Number.source x).toList)) ++ [')'])

theorem element_solid (element : Ground × Option R) : Solid (elementText element) := by
  rw [elementText]
  split
  · rw [← Ground.atom_text]
    exact atom_solid _
  · exact paren_solid _

theorem takes_element (readable : Readable finite) (element : Ground × Option R) (reads : AtomReads element.1.atom)
    (known : ∀ x ∈ element.2, finite x) : Takes Ended G initElement (elementText element)
      (· = (element.1, element.2.map Number.unsigned)) := by
  obtain ⟨fact, value⟩ := element
  have atomText : fact.text.toList = fact.atom.text.toList := by rw [Ground.atom_text]
  cases value with
  | none =>
      have word := name_is_word fact.atom.name reads.1
      have other : "=" ≠ fact.atom.name := by
        rintro same
        have isName := reads.1
        rw [← same] at isName
        exact absurd isName (by decide)
      rw [elementText]
      simp only [atomText]
      refine takes_either_second ?_ (takes_then_pure _ (takes_atom fact.atom reads) fun a same => ?_)
      · rw [atom_spelled]
        exact avoids_word (evades_word (by decide) word other) (spaced_items _ _)
      · rw [same, Ground.atom_ground]
        rfl
  | some x =>
      rw [elementText]
      simp only [atomText]
      refine takes_either_first (takes_weaken (takes_binary (f := fun (_ : Unit) (fluent : Atom) value => (fluent.ground, some value))
        (a := ()) (x := fact.atom) (y := Number.unsigned x) ?_ (takes_atom fact.atom reads)
        (source_reads readable x (known x rfl)).2) fun found same => ?_)
      · exact takes_weaken (takes_keyword "=" (by decide) (by decide)) fun _ _ => rfl
      · rw [same, Ground.atom_ground]
        rfl

theorem takes_init (readable : Readable finite) (init : Init R) (facts : ∀ fact ∈ init.facts, AtomReads fact.atom)
    (values : ∀ entry ∈ init.values, AtomReads entry.1.atom ∧ finite entry.2) (ordered : init.Ordered) :
    Takes (fun _ => True) G initSection
      ('(' :: ((":init".toList ++ init.elements.flatMap fun element => ' ' :: elementText element) ++ [')']))
      (· = init.asRead) := by
  have legible (element : Ground × Option R) (member : element ∈ init.elements) :
      AtomReads element.1.atom ∧ ∀ x ∈ element.2, finite x := by
    rcases List.mem_append.mp member with listed | listed
    · obtain ⟨fact, known, rfl⟩ := List.mem_map.mp listed
      exact ⟨facts fact known, by simp⟩
    · obtain ⟨entry, known, rfl⟩ := List.mem_map.mp listed
      refine ⟨(values entry known).1, ?_⟩
      rintro x ⟨⟩
      exact (values entry known).2
  refine takes_then_pure (P := (· = init.elements.map fun element => (element.1, element.2.map Number.unsigned)))
    initOfElements (takes_after (takes_keyword _ (by decide) (by decide)) (spaced_items _ _) (takes_cut ?_)) fun elements same => ?_
  · refine takes_list _ (fun tail closing => ?_) closing_ended (fun element _ => element_solid element) fun element member =>
      takes_element readable element (legible element member).1 (legible element member).2
    exact either_misses (closing_misses_parens tail closing) (misses_bind (closing_misses_parens tail closing))
  · rw [same, elements_as_read, elements_gathered _ (as_read_ordered init ordered)]

omit [Number R] in
theorem takes_clause {body : Parser R α} {text : List Char} {P : α → Prop} (w : String) (word : IsWord w)
    (reads : Takes Closing G body text P) :
    Takes T G (clause w body) ('(' :: ((w.toList ++ ' ' :: text) ++ [')'])) P :=
  takes_after (takes_keyword w word.lower word.solid) (spaced_more _) (takes_cut (takes_space reads))

omit [Number R] in
theorem takes_direction (towards : Direction) :
    Takes (R := R) Ended G direction towards.keyword.toList (· = towards) := by
  cases towards with
  | minimize => exact takes_either_first (takes_then_pure _ (takes_keyword "minimize" (by decide) (by decide)) fun _ _ => rfl)
  | maximize =>
      refine takes_either_second (fun tail ended => misses_bind ?_)
        (takes_then_pure _ (takes_keyword "maximize" (by decide) (by decide)) fun _ _ => rfl)
      exact keyword_misses_word "minimize" "maximize" tail (by decide) (by decide) (by decide) ended

def newLine (text : List Char) : List Char := '\n' :: ' ' :: ' ' :: text

omit [Number R] in
theorem takes_new_line {p : Parser R α} {text : List Char} {P : α → Prop} (reads : Takes T G p text P) :
    Takes T G p (newLine text) P := reads

def rewardText (r : R) : List Char :=
  newLine ('(' :: ((":goal-reward".toList ++ ' ' :: (Number.source r).toList) ++ [')']))

def metricText (m : Metric R) : List Char :=
  newLine ('(' :: ((":metric".toList ++ ' ' :: (m.direction.keyword.toList ++ ' ' :: m.expression.text.toList)) ++ [')']))

def optional {γ : Type} (write : γ → List Char) (x : Option γ) : List Char := x.elim [] write

omit [Number R] in
theorem takes_optional {γ : Type} {p : Parser R α} {write : γ → List Char} (g : γ → α) (x : Option γ)
    (misses : ∀ tail, T tail → Misses p ⟨skip tail, G⟩)
    (reads : ∀ y ∈ x, Takes T G p (write y) (· = g y)) :
    Takes T G (opt p) (optional write x) (· = x.map g) := by
  intro tail follows
  cases x with
  | none => exact opt_nothing (misses tail follows) rfl
  | some y => exact opt_reads (reads y rfl tail follows) fun a same => congrArg some same

theorem takes_reward (readable : Readable finite) (reward : Option R)
    (known : ∀ r ∈ reward, finite r ∧ Opens G [.rewards]) :
    Takes (Starts [":metric"]) G (opt (licensed ":goal-reward" [.rewards] number)) (optional rewardText reward)
      (· = reward.map Number.unsigned) := by
  refine takes_optional Number.unsigned reward (fun tail starts => ?_) fun r member => takes_new_line ?_
  · exact licensed_misses ":goal-reward" [":metric"] tail starts (by decide) (by decide)
  · exact takes_after (takes_requires _ (takes_keyword _ (by decide) (by decide)) (known r member).2) (spaced_more _)
      (takes_cut (takes_space (takes_fewer (source_reads readable r (known r member).1).2 closing_ended)))

theorem takes_metric (readable : Readable finite) (metric : Option (Metric R))
    (numeric : ∀ m ∈ metric, m.expression.IsExpression (Opens G) finite) :
    Takes Closing G (opt metricSection) (optional metricText metric)
      (· = metric.map fun m => ⟨m.direction, m.expression.asRead⟩) := by
  refine takes_optional _ metric (fun tail closing => closing_misses_parens tail closing) fun m member => takes_new_line ?_
  refine takes_clause _ (by decide) (takes_bind (takes_direction m.direction) (fun _ _ => ended_spaced _) fun towards same => ?_)
  refine takes_then_pure _ (takes_fewer (takes_space (takes_expression readable m.expression (numeric m member)))
    closing_ended) fun q found => ?_
  rw [same, found]

omit [Number R] in
theorem starts_here (w : String) (body rest : List Char) (spaced : Spaced body) :
    Starts [w] ('(' :: ((w.toList ++ body) ++ [')']) ++ rest) := by
  refine .inr ⟨w, List.mem_singleton_self w, body ++ ')' :: rest, ?_, spaced rest⟩
  rw [skip_solid _ _ (paren_solid _), List.cons_append, List.append_assoc, List.append_assoc]
  rfl

omit [Number R] in
theorem starts_new_line (ws : List String) (text rest : List Char) (starts : Starts ws (text ++ rest)) :
    Starts ws (newLine text ++ rest) := starts

omit [Number R] in
theorem starts_indented (ws : List String) (text rest : List Char) (starts : Starts ws (text ++ rest)) :
    Starts ws (' ' :: ' ' :: text ++ rest) := starts

theorem starts_metric (metric : Option (Metric R)) (tail : List Char) (closing : Closing tail) :
    Starts [":metric"] (optional metricText metric ++ tail) := by
  cases metric with
  | none => exact .inl ((closing_skip tail closing).symm ▸ closing)
  | some m =>
      rw [optional, Option.elim_some, metricText]
      exact starts_new_line _ _ _ (starts_here ":metric" _ tail (spaced_more _))

def initText (init : Init R) : List Char :=
  ' ' :: ' ' :: '(' :: ((":init".toList ++ init.elements.flatMap fun element => ' ' :: elementText element) ++ [')'])

def goalText (goal : Goal R) : List Char :=
  newLine ('(' :: ((":goal".toList ++ ' ' :: goal.query.text.toList) ++ [')'])) ++
    (optional rewardText goal.reward ++ optional metricText goal.metric)

def objectsText (p : Problem R) : List Char := (Domain.clause ":objects" (listItems p.objects)).toList

def headerText (p : Problem R) : List Char :=
  ' ' :: ('(' :: (("problem".toList ++ ' ' :: p.name.toList) ++ [')']) ++
    newLine ('(' :: ((":domain".toList ++ ' ' :: p.domain.name.toList) ++ [')'])))

theorem init_spelled (init : Init R) : (String.join (init.facts.map fun fact => " " ++ fact.text)).toList ++
    (String.join (init.values.map fun entry => " (= " ++ entry.1.text ++ " " ++ Number.source entry.2 ++ ")")).toList =
      init.elements.flatMap fun element => ' ' :: elementText element := by
  simp [Init.elements, elementText, List.flatMap_map]

theorem reward_spelled (reward : Option R) :
    (match reward with
      | none => ""
      | some reward => "\n  (:goal-reward " ++ Number.source reward ++ ")").toList = optional rewardText reward := by
  cases reward with
  | none => rfl
  | some r => simp [optional, rewardText, newLine]

theorem metric_spelled (metric : Option (Metric R)) :
    (match metric with
      | none => ""
      | some metric => "\n  (:metric " ++ metric.direction.keyword ++ " " ++ metric.expression.text ++ ")").toList =
      optional metricText metric := by
  cases metric with
  | none => rfl
  | some m => simp [optional, metricText, newLine]

theorem problem_text (p : Problem R) : p.text.toList =
    '(' :: (("define".toList ++ (headerText p ++ '\n' :: (objectsText p ++ (initText p.init ++ goalText p.goal)))) ++ [')']) := by
  have objects : Domain.clause ":objects" (if p.objects.isEmpty then [] else [Term.listText p.objects]) =
      Domain.clause ":objects" (listItems p.objects) := rfl
  unfold Problem.text
  rw [objects, goalText, initText, ← init_spelled]
  simp [headerText, objectsText, newLine]
  exact congrArg₂ (· ++ ·) (reward_spelled p.goal.reward) (congrArg (· ++ [')']) (metric_spelled p.goal.metric))

structure WritesProblem (file : ProblemFile R) (p : Problem R) : Prop where
  name : file.name = p.name
  domain : file.domain.2 = p.domain.name
  objects : file.objects.map Prod.snd = p.asRead.objects
  init : file.init = p.asRead.init
  goal : file.goal = p.asRead.goal

theorem takes_goal [Number.ZerosAlike R] (readable : Readable finite) (p : Problem R)
    (legible : p.Legible (Opens G) finite) (n : String) (domain : Span × String) (objects : List (Span × Term))
    (init : Init R) :
    Takes Closing G (do
      let goal ← clause ":goal" query
      let reward ← opt (licensed ":goal-reward" [.rewards] number)
      let metric ← opt metricSection
      pure (⟨n, domain, objects, init, ⟨goal, reward, metric⟩⟩ : ProblemFile R)) (goalText p.goal)
      (· = ⟨n, domain, objects, init, p.asRead.goal⟩) := by
  have query := takes_fewer (takes_query readable p.goal.query legible.goal) closing_ended
  refine takes_bind (takes_new_line (takes_clause (T := fun _ => True) ":goal" (by decide) query))
    (fun _ _ => trivial) fun goal same => ?_
  refine takes_bind (takes_reward readable p.goal.reward legible.reward) (starts_metric p.goal.metric) fun reward found => ?_
  refine takes_then_pure _ (takes_metric readable p.goal.metric legible.metric) fun metric known => ?_
  rw [same, found, known]
  rfl

theorem takes_problem_file [Number.ZerosAlike R] (readable : Readable finite) (p : Problem R)
    (legible : p.Legible (Opens G) finite) :
    Takes Closing G (do
      let (_, n) ← clause "problem" name
      let domain ← clause ":domain" name
      let _ ← opt requirementsSection
      let objects ← opt (clause ":objects" (typedList name))
      let init ← initSection
      let goal ← clause ":goal" query
      let reward ← opt (licensed ":goal-reward" [.rewards] number)
      let metric ← opt metricSection
      pure
        { name := n
          domain
          objects := objects.getD []
          init
          goal := ⟨goal, reward, metric⟩ })
      (headerText p ++ '\n' :: (objectsText p ++ (initText p.init ++ goalText p.goal))) (WritesProblem · p) := by
  have named (w : String) (word : IsWord w) (n : String) (isName : IsName n) :=
    takes_clause (R := R) (G := G) (T := fun _ => True) w word (takes_fewer (takes_name n isName) closing_ended)
  have starts (tail : List Char) : Starts [":init"] (initText p.init ++ tail) := by
    rw [initText]
    exact starts_indented _ _ _ (starts_here ":init" _ tail (spaced_items p.init.elements elementText))
  have objects : Takes (Starts [":init"]) G (opt (clause ":objects" (typedList (name (R := R))))) (objectsText p)
      (fun found => (found.getD []).map Prod.snd = p.asRead.objects) := fun tail follows =>
    reads_names ":objects" (by decide) p.objects legible.objects _ tail follows (by decide)
  have requirements : Takes (R := R) (Starts [":objects", ":init"]) G (opt requirementsSection) ['\n'] (fun _ => True) :=
    fun tail follows => opt_nothing (misses_bind (clause_misses _ _ tail follows (by decide) (by decide))) trivial
  rw [headerText, List.cons_append, List.append_assoc]
  refine takes_space (takes_bind (named "problem" (by decide) p.name legible.name) (fun _ _ => trivial) fun ⟨span, n⟩ isName => ?_)
  refine takes_bind (takes_new_line (named ":domain" (by decide) p.domain.name legible.domain)) (fun _ _ => trivial)
    fun domain isDomain => ?_
  show Takes _ _ _ (['\n'] ++ (objectsText p ++ (initText p.init ++ goalText p.goal))) _
  refine takes_bind requirements (fun tail _ => ?_) fun _ _ => ?_
  · rw [List.append_assoc, List.append_assoc, objectsText]
    exact starts_section ":objects" _ _ _ (starts _)
  refine takes_bind objects (fun tail _ => ?_) fun found known => ?_
  · rw [List.append_assoc]
    exact starts _
  refine takes_bind (takes_space (takes_space (takes_init readable p.init legible.facts legible.values legible.ordered)))
    (fun _ _ => trivial) fun init same => ?_
  refine takes_weaken (takes_goal readable p legible n domain (found.getD []) init) fun file written => ?_
  rw [written]
  exact ⟨isName, isDomain, known, same, rfl⟩

theorem problem_file_reads [Number.ZerosAlike R] (readable : Readable finite) (p : Problem R)
    (legible : p.Legible (Opens G) finite) :
    Reads problemFile ⟨skip p.text.toList, G⟩ ⟨[], G⟩ (WritesProblem · p) := by
  have file := takes_parens (T := fun _ => True) (takes_bind (takes_keyword (R := R) (G := G) "define"
    (by decide) (by decide)) (fun _ _ => ?_) fun _ _ => takes_problem_file readable p legible) [] trivial
  · rw [problem_text, ← List.append_nil ('(' :: _)]
    exact file
  · rw [headerText]
    exact ended_spaced _

theorem written_problem_checked (file : ProblemFile R) (p : Problem R) (writes : WritesProblem file p)
    (declared : p.Declared) : file.Checked p.domain ∧ file.problem p.domain = p.asRead := by
  obtain ⟨name, domain, objects, init, goal⟩ := writes
  constructor
  · constructor
    · exact domain
    · rw [objects, Problem.asRead, Term.spell_out_names]
      exact declared.distinct
    · intro t member
      rw [objects] at member
      obtain ⟨u, listed, rfl⟩ := List.mem_map.mp member
      have names : Term.same (Term.spelled (p.objects.any fun t => t.kind.isSome) u) = Term.same u := by
        rw [Term.spelled]
        split <;> rfl
      rw [names]
      exact declared.fresh u listed
    · rw [objects]
      exact Domain.known_spelled _ _ declared.types
  · rw [ProblemFile.problem, name, objects, init, goal]
    rfl

end Source

theorem Problem.parse_text {R : Type} [Number R] [Number.ZerosAlike R] {finite : R → Prop} (readable : Source.Readable finite)
    (p : Problem R) (legible : p.Legible (Source.Opens (RequirementSet.closure p.domain.requirements)) finite)
    (declared : p.Declared) : Problem.parse p.domain p.text = .ok p.asRead := by
  obtain ⟨file, parsed, writes⟩ := Source.parse_all_reads p.text true _ (Source.problem_file_reads readable p legible)
  obtain ⟨checked, same⟩ := Source.written_problem_checked file p writes declared
  rw [Problem.parse, parsed, ok_bind, Source.ProblemFile.check_ok_iff]
  exact ⟨checked, same⟩

end Replan
