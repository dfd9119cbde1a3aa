import Mathlib
import Replan.Proofs.Source.FileChecks
import Replan.Proofs.Source.LocatedFiles

set_option autoImplicit false

namespace Replan

open Results Source Source.Parser

variable {R : Type}

namespace Source

def Repeats (names : NameList) (n : String) (first again : Span) : Prop :=
  ∃ before between after, names = before ++ (first, n) :: between ++ (again, n) :: after ∧
    ∀ entry ∈ before ++ between, entry.2 ≠ n

def Redeclares (names : NameList) (kind : String → ErrorKind R) (e : Error R) : Prop :=
  ∃ n cause, e.kind = kind n ∧ e.cause = some cause ∧ cause.kind = .firstDefinedHere ∧ Repeats names n cause.span e.span

def Blames (names : NameList) (e : Error R) : Prop :=
  e.cause = none ∧ (∀ offset, e.kind ≠ .unclosedParenthesis offset) ∧ ∃ entry ∈ names, e.span = entry.1

theorem blames_more {names more : NameList} (within : names ⊆ more) (e : Error R) (blames : Blames names e) :
    Blames more e := by
  obtain ⟨alone, plain, entry, member, span⟩ := blames
  exact ⟨alone, plain, entry, within member, span⟩

theorem first_span_some (seen : NameList) (n : String) (first : Span) (found : firstSpan? seen n = some first) :
    ∃ before after, seen = before ++ (first, n) :: after ∧ ∀ entry ∈ before, entry.2 ≠ n := by
  obtain ⟨⟨span, name⟩, known, rfl⟩ := Option.map_eq_some_iff.mp found
  obtain ⟨same, before, after, split, others⟩ := List.find?_eq_some_iff_append.mp known
  have named : name = n := by simpa using same
  exact ⟨before, after, named ▸ split, fun entry member => by simpa using others entry member⟩

theorem distinct_from_fails (kind : String → ErrorKind R) (seen names : NameList)
    (distinct : (seen.map Prod.snd).Nodup) :
    Fails (Redeclares (seen ++ names) kind) (checkDistinctFrom kind seen names) := by
  induction names generalizing seen with
  | nil => trivial
  | cons entry names ih =>
      rw [checkDistinctFrom]
      cases found : firstSpan? seen entry.2 with
      | some first =>
          obtain ⟨before, between, split, new⟩ := first_span_some seen entry.2 first found
          rw [split, List.map_append, List.map_cons, List.nodup_append, List.nodup_cons] at distinct
          have apart : ∀ other ∈ between, other.2 ≠ entry.2 := fun other member same =>
            distinct.2.1.1 (same ▸ List.mem_map_of_mem member)
          refine ⟨entry.2, ⟨.firstDefinedHere, first⟩, rfl, rfl, rfl, before, between, names, ?_, ?_⟩
          · rw [split]
          · exact List.forall_mem_append.mpr ⟨new, apart⟩
      | none =>
          have longer : ((seen ++ [entry]).map Prod.snd).Nodup := by
            rw [List.map_append, List.map_singleton, ← List.concat_eq_append, List.nodup_concat]
            exact ⟨(first_span_none seen entry.2).mp found, distinct⟩
          have rest := ih (seen ++ [entry]) longer
          rwa [List.append_assoc] at rest

theorem distinct_fails (kind : String → ErrorKind R) (names : NameList) :
    Fails (Redeclares names kind) (checkDistinct kind names) :=
  distinct_from_fails kind [] names .nil

theorem types_fail (types : Hierarchy) (entries : List (Span × Term)) :
    Fails (Blames (R := R) (termNames entries)) (checkTypes types entries) := by
  induction entries with
  | nil => trivial
  | cons entry entries ih =>
      rw [checkTypes]
      cases undeclared? types entry.2 with
      | some kind =>
          exact ⟨rfl, fun offset same => (by cases same), (entry.1, entry.2.name), List.mem_cons_self, rfl⟩
      | none => exact fails_weaken _ ih (blames_more (List.subset_cons_self _ _))

theorem actions_fail (types : Hierarchy) (actions : List (Action R × List (Span × Term))) :
    Fails (Blames (R := R) (actions.flatMap fun entry => termNames entry.2)) (checkActions types actions) := by
  induction actions with
  | nil => trivial
  | cons entry actions ih =>
      rw [checkActions, List.flatMap_cons]
      refine fails_bind _ _ ?_ fun _ => ?_
      · exact fails_weaken _ (types_fail types entry.2) (blames_more (List.subset_append_left _ _))
      · exact fails_weaken _ ih (blames_more (List.subset_append_right _ _))

def DomainFile.sections (file : DomainFile R) : List ((String → ErrorKind R) × NameList) :=
  [(.duplicateType, termNames file.types), (.duplicateObject, termNames file.constants),
    (.duplicatePredicate, atomNames file.predicates)]

def ProblemFile.sections (file : ProblemFile R) : List ((String → ErrorKind R) × NameList) :=
  [(.duplicateObject, termNames file.objects)]

theorem DomainFile.sections_listed (file : DomainFile R) : ∀ part ∈ file.sections, part.2.Sublist file.names := by
  have types : (termNames file.types).Sublist file.names := by
    rw [names, List.append_assoc, List.append_assoc]
    exact List.sublist_append_left _ _
  have constants : (termNames file.constants).Sublist file.names := by
    rw [names, List.append_assoc]
    exact (List.sublist_append_right _ _).trans (List.sublist_append_left _ _)
  have predicates : (atomNames file.predicates).Sublist file.names :=
    (List.sublist_append_right _ _).trans (List.sublist_append_left _ _)
  intro part inside
  simp only [sections, List.mem_cons, List.not_mem_nil, or_false] at inside
  rcases inside with rfl | rfl | rfl
  · exact types
  · exact constants
  · exact predicates

theorem ProblemFile.sections_listed (file : ProblemFile R) : ∀ part ∈ file.sections, part.2.Sublist file.names :=
  List.forall_mem_singleton.mpr (List.sublist_cons_self _ _)

def Faulty (names : NameList) (sections : List ((String → ErrorKind R) × NameList)) (e : Error R) : Prop :=
  Blames names e ∨ ∃ part ∈ sections, Redeclares part.2 part.1 e

theorem DomainFile.check_fails (file : DomainFile R) : Fails (Faulty file.names file.sections) file.check := by
  have blamed {α : Type} (names : NameList) (within : names ⊆ file.names) (x : Except (Error R) α)
      (fails : Fails (Blames names) x) : Fails (Faulty file.names file.sections) x :=
    fails_weaken x fails fun e blames => .inl (blames_more within e blames)
  have repeated (part) (listed : part ∈ file.sections) :
      Fails (Faulty file.names file.sections) (checkDistinct part.1 part.2) :=
    fails_weaken _ (distinct_fails part.1 part.2) fun e again => .inr ⟨part, listed, again⟩
  have types := (file.sections_listed (.duplicateType, termNames file.types) (by simp [sections])).subset
  have constants := (file.sections_listed (.duplicateObject, termNames file.constants) (by simp [sections])).subset
  refine fails_bind _ _ (repeated (.duplicateType, termNames file.types) (by simp [sections])) fun _ => ?_
  refine fails_bind _ _ (blamed _ types _ (types_fail _ _)) fun _ => ?_
  refine fails_bind _ _ (repeated (.duplicateObject, termNames file.constants) (by simp [sections])) fun _ => ?_
  refine fails_bind _ _ (blamed _ constants _ (types_fail _ _)) fun _ => ?_
  refine fails_bind _ _ (repeated (.duplicatePredicate, atomNames file.predicates) (by simp [sections])) fun _ => ?_
  exact fails_bind _ _ (blamed _ (List.subset_append_right _ _) _ (actions_fail _ _)) fun _ => trivial

theorem ProblemFile.check_fails (d : Domain R) (file : ProblemFile R) :
    Fails (Faulty file.names file.sections) (file.check d) := by
  have objects : termNames file.objects ⊆ file.names := List.subset_cons_self _ _
  have known := fails_weaken _ (types_fail (R := R) d.types file.objects) fun e blames =>
    Or.inl (b := ∃ part ∈ file.sections, Redeclares part.2 part.1 e) (blames_more objects e blames)
  have repeated : Fails (Faulty file.names file.sections) (checkDistinct .duplicateObject (termNames file.objects)) :=
    fails_weaken _ (distinct_fails _ _) fun e again => .inr ⟨_, List.mem_singleton_self _, again⟩
  unfold check
  by_cases other : (file.domain.2 != d.name) = true
  · rw [if_pos other]
    exact .inl ⟨rfl, nofun, file.domain, List.mem_cons_self, rfl⟩
  · rw [if_neg other]
    refine fails_bind _ _ repeated fun _ => ?_
    cases found : file.objects.find? (constant? d) with
    | some entry =>
        have member := List.mem_of_find?_eq_some found
        exact .inl ⟨rfl, nofun, _, objects (List.mem_map_of_mem member), rfl⟩
    | none => exact fails_bind _ _ known fun _ => trivial

end Source

-- A span of a text in bytes, from the beginning of a character, or the end of the text, to another one.
structure Span.Within (text : String) (inProblem : Bool) (span : Span) : Prop where
  ordered : span.start ≤ span.stop
  inside : span.stop ≤ text.utf8ByteSize
  start : (⟨span.start⟩ : String.Pos.Raw).IsValid text
  stop : (⟨span.stop⟩ : String.Pos.Raw).IsValid text
  marked : span.inProblem = inProblem

namespace Error

def faults (e : Error R) : List (Diagnostic R) := e.toDiagnostic :: e.cause.toList

structure PointsInto (text : String) (inProblem : Bool) (e : Error R) : Prop where
  spans : ∀ fault ∈ e.faults, fault.span.Within text inProblem
  opened : ∀ fault ∈ e.faults, ∀ offset, fault.kind = .unclosedParenthesis offset →
    ∃ before after, text = before ++ "(" ++ after ∧ before.utf8ByteSize = offset

end Error

namespace Source

structure Written (text : String) (names : NameList) : Prop where
  covered : ∀ entry ∈ names, ∃ before word after, text = before ++ word ++ after ∧ word ≠ "" ∧
    entry.1.start = before.utf8ByteSize ∧ entry.1.stop = (before ++ word).utf8ByteSize ∧ lowered word.toList = entry.2
  ordered : names.Pairwise fun a b => a.1.stop ≤ b.1.start

section Bytes

theorem width_bytes (cs : List Char) : (String.ofList cs).utf8ByteSize = Cursor.width cs := by
  induction cs with
  | nil => rfl
  | cons c cs ih =>
      rw [String.ofList_cons, String.utf8ByteSize_append, String.utf8ByteSize_singleton, ih, Cursor.width_cons]

variable {text : String} {inProblem : Bool} {G : RequirementSet}

theorem reached_text (c : Cursor) (reached : (Cursor.ofText text inProblem G).Reaches c) :
    ∃ before, text = before ++ String.ofList c.rest ∧ c.offset = before.utf8ByteSize ∧ c.inProblem = inProblem := by
  obtain ⟨taken, moves⟩ := reached
  refine ⟨String.ofList taken, ?_, ?_, moves.inProblem⟩
  · rw [← String.ofList_append, ← moves.text]
    exact String.ofList_toList.symm
  · rw [width_bytes, moves.offset]
    exact Nat.zero_add _

theorem moved_text (a b : Cursor) (word : List Char) (reached : (Cursor.ofText text inProblem G).Reaches a)
    (moves : a.Moves word b) :
    ∃ before after, text = before ++ String.ofList word ++ after ∧ a.offset = before.utf8ByteSize ∧
      b.offset = (before ++ String.ofList word).utf8ByteSize ∧ a.inProblem = inProblem := by
  obtain ⟨before, whole, offset, marked⟩ := reached_text a reached
  refine ⟨before, String.ofList b.rest, ?_, offset, ?_, marked⟩
  · rw [String.append_assoc, ← String.ofList_append, ← moves.text]
    exact whole
  · rw [moves.offset, String.utf8ByteSize_append, width_bytes, offset]

theorem prefix_valid (before after : String) : (⟨before.utf8ByteSize⟩ : String.Pos.Raw).IsValid (before ++ after) :=
  String.Pos.Raw.isValid_iff_exists_append.mpr ⟨before, after, rfl, rfl⟩

theorem spans_within (span : Span) (spans : (Cursor.ofText text inProblem G).Spans span) :
    span.Within text inProblem := by
  obtain ⟨a, b, reached, onward, rfl⟩ := spans
  obtain ⟨word, moves⟩ := onward
  obtain ⟨before, after, whole, start, stop, marked⟩ := moved_text a b word reached moves
  have sizes := congrArg String.utf8ByteSize whole
  rw [String.utf8ByteSize_append, ← stop] at sizes
  refine ⟨Cursor.reaches_offset ⟨word, moves⟩, ?_, ?_, ?_, marked⟩
  · show b.offset ≤ text.utf8ByteSize
    omega
  · show (⟨a.offset⟩ : String.Pos.Raw).IsValid text
    rw [start, whole, String.append_assoc]
    exact prefix_valid _ _
  · show (⟨b.offset⟩ : String.Pos.Raw).IsValid text
    rw [stop, whole]
    exact prefix_valid _ _

theorem sees_within (fault : Diagnostic R) (seen : (Cursor.ofText text inProblem G).Sees fault) :
    fault.span.Within text inProblem ∧ ∀ offset, fault.kind = .unclosedParenthesis offset →
      ∃ before after, text = before ++ "(" ++ after ∧ before.utf8ByteSize = offset := by
  refine ⟨spans_within fault.span seen.span, fun offset kind => ?_⟩
  obtain ⟨a, reached, same, head⟩ := seen.opened offset kind
  obtain ⟨rest, opening⟩ := List.head?_eq_some_iff.mp head
  obtain ⟨before, after, whole, start, -⟩ := moved_text a (a.moved ['('] rest) ['('] reached (a.moved_moves _ _ opening)
  exact ⟨before, after, whole, start.symm.trans same⟩

theorem names_in_text {names : NameList} {c : Cursor} (listed : (Cursor.ofText text inProblem G).Names names c) :
    Written text names := by
  refine ⟨fun entry member => ?_, Cursor.names_ordered listed⟩
  obtain ⟨a, b, word, reached, moves, nonempty, rfl⟩ := Cursor.names_written listed entry member
  obtain ⟨before, after, whole, start, stop, -⟩ := moved_text a b word reached moves
  refine ⟨before, String.ofList word, after, whole, fun empty => ?_, start, stop, by rw [String.toList_ofList]⟩
  exact nonempty (by simpa using congrArg String.toList empty)

theorem written_part {names part : NameList} (written : Written text names) (within : part.Sublist names) :
    Written text part :=
  ⟨fun entry member => written.covered entry (within.subset member), written.ordered.sublist within⟩

theorem points_into {e : Error R} (seen : (Cursor.ofText text inProblem G).Sees e.toDiagnostic) (alone : e.cause = none) :
    e.PointsInto text inProblem := by
  have only : e.faults = [e.toDiagnostic] := by rw [Error.faults, alone]; rfl
  obtain ⟨span, opened⟩ := sees_within e.toDiagnostic seen
  constructor
  · rw [only, List.forall_mem_singleton]
    exact span
  · rw [only, List.forall_mem_singleton]
    exact opened

theorem faulty_points {names : NameList} {c : Cursor} (listed : (Cursor.ofText text inProblem G).Names names c)
    {sections : List ((String → ErrorKind R) × NameList)} (parts : ∀ part ∈ sections, part.2.Sublist names)
    (plain : ∀ part ∈ sections, ∀ n offset, part.1 n ≠ .unclosedParenthesis offset) (e : Error R)
    (faulty : Faulty names sections e) : e.PointsInto text inProblem := by
  have spans (entry) (member : entry ∈ names) := spans_within _ (Cursor.names_spans listed entry member)
  rcases faulty with blames | again
  · obtain ⟨alone, noParenthesis, entry, member, span⟩ := blames
    have seen : (Cursor.ofText text inProblem G).Sees e.toDiagnostic :=
      ⟨span ▸ Cursor.names_spans listed entry member, fun offset same => absurd same (noParenthesis offset)⟩
    exact points_into seen alone
  · obtain ⟨part, inside, n, cause, kind, known, first, before, between, after, split, -⟩ := again
    have member (entry) (here : entry ∈ part.2) := spans entry ((parts part inside).subset here)
    have faults : e.faults = [e.toDiagnostic, cause] := by rw [Error.faults, known]; rfl
    constructor
    · rw [faults, List.forall_mem_cons, List.forall_mem_singleton]
      exact ⟨member (_, n) (by rw [split]; simp), member (_, n) (by rw [split]; simp)⟩
    · rw [faults, List.forall_mem_cons, List.forall_mem_singleton, kind, first]
      exact ⟨fun offset same => absurd same (plain part inside n offset), nofun⟩

theorem checked_text {α β : Type} (p : Parser R α) (view : α → NameList)
    (sections : α → List ((String → ErrorKind R) × NameList)) (check : α → Except (Error R) β)
    (lists : Lists (Cursor.ofText text inProblem G) view p)
    (fails : ∀ file, Fails (Faulty (view file) (sections file)) (check file))
    (parts : ∀ file, ∀ part ∈ sections file, part.2.Sublist (view file))
    (plain : ∀ file, ∀ part ∈ sections file, ∀ n offset, part.1 n ≠ .unclosedParenthesis offset) (e : Error R)
    (failed : (parseAll p (Cursor.ofText text inProblem G) >>= check) = .error e) :
    e.PointsInto text inProblem ∧ ∀ cause, e.cause = some cause →
      ∃ file, parseAll p (Cursor.ofText text inProblem G) = .ok file ∧
        ∃ part ∈ sections file, Written text part.2 ∧ Redeclares part.2 part.1 e := by
  obtain ⟨known, missed⟩ := parse_all_located _ view lists
  cases read : parseAll p (Cursor.ofText text inProblem G) with
  | error e' =>
      rw [read] at failed
      cases failed
      obtain ⟨seen, alone⟩ := missed e read
      exact ⟨points_into seen alone, fun cause some => by rw [alone] at some; cases some⟩
  | ok file =>
      rw [read] at failed
      have unchecked : check file = .error e := failed
      obtain ⟨c, listed⟩ := known file read
      have faulty := fails file
      rw [unchecked] at faulty
      refine ⟨faulty_points listed (parts file) (plain file) e faulty, fun cause caused => ⟨file, rfl, ?_⟩⟩
      rcases faulty with ⟨alone, -⟩ | ⟨part, inside, again⟩
      · rw [alone] at caused
        cases caused
      · exact ⟨part, inside, written_part (names_in_text listed) (parts file part inside), again⟩

end Bytes

theorem DomainFile.sections_plain (file : DomainFile R) :
    ∀ part ∈ file.sections, ∀ n offset, part.1 n ≠ .unclosedParenthesis offset := by
  intro part inside n offset
  simp only [sections, List.mem_cons, List.not_mem_nil, or_false] at inside
  rcases inside with rfl | rfl | rfl <;> exact nofun

theorem ProblemFile.sections_plain (file : ProblemFile R) :
    ∀ part ∈ file.sections, ∀ n offset, part.1 n ≠ .unclosedParenthesis offset :=
  List.forall_mem_singleton.mpr fun _ _ => nofun

end Source

variable [Number R]

/-- Every error points into the text. A cause names the place where the section of the file that has been read
declares the same name for the first time. -/
theorem errors_point_into_the_text :
    (∀ text (e : Error R), Domain.parse text = .error e →
      e.PointsInto text false ∧ ∀ cause, e.cause = some cause →
        ∃ file, parseAll domainFile (Cursor.ofText text false []) = .ok file ∧
          ∃ part ∈ file.sections, Written text part.2 ∧ Redeclares part.2 part.1 e) ∧
    ∀ (d : Domain R) text e, Problem.parse d text = .error e →
      e.PointsInto text true ∧ ∀ cause, e.cause = some cause →
        ∃ file, parseAll problemFile (Cursor.ofText text true (RequirementSet.closure d.requirements)) = .ok file ∧
          ∃ part ∈ file.sections, Written text part.2 ∧ Redeclares part.2 part.1 e := by
  constructor
  · intro text e failed
    exact checked_text domainFile DomainFile.names DomainFile.sections DomainFile.check lists_domain_file
      DomainFile.check_fails DomainFile.sections_listed DomainFile.sections_plain e failed
  · intro d text e failed
    exact checked_text problemFile ProblemFile.names ProblemFile.sections (ProblemFile.check d) lists_problem_file
      (ProblemFile.check_fails d) ProblemFile.sections_listed ProblemFile.sections_plain e failed

def sameNamesText : String := "; naïve\n(define (domain d) (:predicates (fresh) (p) (P ?x)))"

def unclosedText : String := "; naïve\n(define (problem n) (:domain d) (:init) (:goal (and)"

theorem errors_in_a_domain_and_a_problem :
    (∃ e : Error Float, Domain.parse sameNamesText = .error e ∧
      e = ⟨⟨.duplicatePredicate "p", ⟨54, 55, false⟩⟩, some ⟨.firstDefinedHere, ⟨50, 51, false⟩⟩⟩ ∧
      e.PointsInto sameNamesText false ∧
      ∃ file, parseAll (R := Float) domainFile (Cursor.ofText sameNamesText false []) = .ok file ∧
        ∃ part ∈ file.sections, Written sameNamesText part.2 ∧ Redeclares part.2 part.1 e) ∧
    ∃ e : Error Float, Problem.parse ⟨"d", [], ⟨[]⟩, [], [], [], []⟩ unclosedText = .error e ∧
      e = ⟨⟨.unclosedParenthesis 49, ⟨61, 61, true⟩⟩, none⟩ ∧ e.PointsInto unclosedText true := by
  obtain ⟨domains, problems⟩ := errors_point_into_the_text (R := Float)
  constructor
  · have twice : refusal? (Domain.parse (R := Float) sameNamesText) =
        some ⟨⟨.duplicatePredicate "p", ⟨54, 55, false⟩⟩, some ⟨.firstDefinedHere, ⟨50, 51, false⟩⟩⟩ := by
      rw [Domain.parse, Cursor.ofText, sameNamesText, String.toList_ofList]
      decide +kernel
    rw [refusal_iff] at twice
    obtain ⟨points, caused⟩ := domains _ _ twice
    exact ⟨_, twice, rfl, points, caused _ rfl⟩
  · have unclosed : refusal? (Problem.parse (R := Float) ⟨"d", [], ⟨[]⟩, [], [], [], []⟩ unclosedText) =
        some ⟨⟨.unclosedParenthesis 49, ⟨61, 61, true⟩⟩, none⟩ := by
      rw [Problem.parse, Cursor.ofText, unclosedText, String.toList_ofList]
      decide +kernel
    rw [refusal_iff] at unclosed
    exact ⟨_, unclosed, rfl, (problems _ _ _ unclosed).1⟩

end Replan
