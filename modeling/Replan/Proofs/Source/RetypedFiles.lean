import Replan.Proofs.Source.FileChecks
import Replan.Proofs.Source.ProblemDeclarations
import Replan.Proofs.Source.RetypedFormulas
import Replan.Proofs.Source.SectionText

set_option autoImplicit false

namespace Replan

open Results

namespace Source

open Replan.Source.Parser

section Sections

variable {R α γ : Type} {n m : Nat} {view : α → γ} {p q : Parser R α}

theorem agree_requirement : Agree (R := R) n m 1 id anyRequirement anyRequirement := by
  have flag (r : Requirement) : Agree (R := R) n m 1 id (as r (keyword r.keyword)) (as r (keyword r.keyword)) :=
    agree_choice r r.keyword (by cases r <;> decide)
  refine agree_first_of (flag .strips) (List.forall₂_same.mpr fun parser member => ?_)
  obtain ⟨r, -, rfl⟩ := List.mem_map.mp member
  exact flag r

theorem agree_requirements : Agree (R := R) n m 1 id requirementsSection requirementsSection := by
  refine agree_bind_same 1 (agree_form (agree_keyword ":requirements" (by decide)) fun _ =>
    agree_loose (agree_cut (agree_many_one_same agree_requirement))) fun declared => ?_
  exact agree_bind_same 0 (agree_declare _) fun _ => agree_pure rfl

theorem agree_clause (w : String) (isMark : IsMark w) (agree : Agree (n - 1) (m - 1) 0 view p q) :
    Agree n m 1 view (clause w p) (clause w q) :=
  agree_form (agree_keyword w isMark) fun _ => agree_cut agree

theorem agree_licensed (w : String) (isMark : IsMark w) (oneOf : RequirementSet)
    (agree : Agree (n - 1) (m - 1) 0 view p q) : Agree n m 1 view (licensed w oneOf p) (licensed w oneOf q) :=
  agree_form (agree_requires _ (agree_keyword w isMark)) fun _ => agree_cut agree

theorem agree_declaration : Agree (R := R) n m 1 Prod.snd declaration declaration := by
  refine agree_parens (agree_next agree_name fun a b same => ?_)
  refine agree_bind 0 (agree_typed_list fun _ _ => agree_variable) fun as bs args => agree_pure ?_
  exact congrArg₂ Atom.mk same args

theorem agree_predicates :
    Agree (R := R) n m 1 (List.map Prod.snd) predicatesSection predicatesSection :=
  agree_clause ":predicates" (by decide) (agree_many agree_declaration)

theorem agree_functions : Agree (R := R) n m 1 id functionsSection functionsSection := by
  refine agree_licensed ":functions" (by decide) _ (agree_many_same (agree_bind 1 agree_declaration fun a b same => ?_))
  refine agree_bind_same 0 (agree_opt_same ?_) fun _ => agree_pure same
  exact agree_next_same (agree_sign '-' (by decide)) fun _ => agree_loose (agree_keyword "number" (by decide))

theorem agree_direction : Agree (R := R) n m 1 id direction direction :=
  agree_either (agree_choice _ "minimize" (by decide)) (agree_choice _ "maximize" (by decide))

theorem listed_same (as bs : Option (List α)) (same : as.map (List.map view) = bs.map (List.map view)) :
    (as.getD []).map view = (bs.getD []).map view := by
  have given (xs : Option (List α)) : (xs.getD []).map view = (xs.map (List.map view)).getD [] := by cases xs <;> rfl
  rw [given, given, same]

theorem agree_field (w : String) (isMark : IsMark w) (agree : Agree n m 1 view p q) :
    Agree n m 0 (Option.map view) (opt (keyword w >>= fun _ => p)) (opt (keyword w >>= fun _ => q)) :=
  agree_opt (agree_next_same (agree_keyword w isMark) fun _ => agree_loose agree)

def actionContent (entry : Action R × List (Span × Term)) : Action R × List Term := (entry.1, entry.2.map Prod.snd)

variable [Number R]

theorem agree_action : Agree (R := R) n m 1 actionContent actionSection actionSection := by
  refine agree_named _ _ (agree_clause ":action" (by decide) (agree_next agree_name fun a b same => ?_))
  refine agree_bind 0 (agree_field ":parameters" (by decide) agree_variables) fun parameters others typed => ?_
  refine agree_bind 0 (agree_field ":precondition" (by decide) agree_query) fun precondition other conditions => ?_
  refine agree_bind 0 (agree_field ":effect" (by decide) agree_effect) fun effect made effects => agree_pure ?_
  rw [Option.map_id] at conditions effects
  cases conditions
  cases effects
  simp only [actionContent, same, listed_same parameters others typed]

theorem agree_init_element : Agree (R := R) n m 1 id initElement initElement := by
  refine agree_either ?_ (agree_bind_same 1 agree_atom fun _ => agree_pure rfl)
  exact agree_form (agree_keyword "=" (by decide)) fun _ =>
    agree_next_same agree_atom fun _ => agree_next_same agree_number fun _ => agree_pure rfl

theorem agree_init : Agree (R := R) n m 1 id initSection initSection :=
  agree_bind_same 1 (agree_clause ":init" (by decide) (agree_many_same agree_init_element)) fun _ => agree_pure rfl

theorem agree_metric : Agree (R := R) n m 1 id metricSection metricSection :=
  agree_clause ":metric" (by decide) (agree_next_same agree_direction fun _ =>
    agree_next_same agree_expression fun _ => agree_pure rfl)

end Sections

section Domains

variable {R : Type} {n m : Nat}

def DomainFile.content (file : DomainFile R) : String × RequirementSet × List Term × List Term × List Atom × List Atom ×
    List (Action R × List Term) :=
  (file.name, file.requirements, file.types.map Prod.snd, file.constants.map Prod.snd, file.predicates.map Prod.snd,
    file.functions, file.actions.map actionContent)

theorem action_contents (file : DomainFile R) :
    file.actions.map Prod.fst = (file.actions.map actionContent).map Prod.fst ∧
      ∀ types, (∀ entry ∈ file.actions, Domain.Known types (entry.2.map Prod.snd)) ↔
        ∀ entry ∈ file.actions.map actionContent, Domain.Known types entry.2 := by
  constructor
  · rw [List.map_map]
    rfl
  · intro types
    rw [List.forall_mem_map]
    rfl

theorem checked_content (file other : DomainFile R) (same : file.content = other.content) (checked : file.Checked) :
    other.Checked ∧ other.domain = file.domain := by
  simp only [DomainFile.content, Prod.mk.injEq] at same
  obtain ⟨name, requirements, types, constants, predicates, functions, actions⟩ := same
  have hierarchies : hierarchy other.types = hierarchy file.types := by
    rw [hierarchy_terms, hierarchy_terms, types]
  obtain ⟨mine, parameters⟩ := action_contents file
  obtain ⟨others, parameters'⟩ := action_contents other
  constructor
  · refine ⟨?_, ?_, ?_, ?_, ?_, ?_⟩
    · exact types ▸ checked.distinctTypes
    · rw [hierarchies]
      exact types ▸ checked.types
    · exact constants ▸ checked.distinctConstants
    · rw [hierarchies]
      exact constants ▸ checked.constants
    · exact predicates ▸ checked.distinctPredicates
    · rw [parameters', hierarchies, ← actions]
      exact (parameters _).mp checked.parameters
  · simp only [DomainFile.domain, hierarchies, name, requirements, constants, predicates, functions, mine, others,
      actions]

theorem check_content (file other : DomainFile R) (same : file.content = other.content) (d : Domain R) :
    file.check = .ok d ↔ other.check = .ok d := by
  rw [DomainFile.check_ok_iff, DomainFile.check_ok_iff]
  constructor
  · rintro ⟨checked, rfl⟩
    exact checked_content file other same checked
  · rintro ⟨checked, rfl⟩
    exact checked_content other file same.symm checked

variable [Number R]

theorem agree_domain_file : Agree (R := R) n m 1 DomainFile.content domainFile domainFile := by
  have names {n m : Nat} : Agree (R := R) n m 0 (List.map Prod.snd) (typedList name) (typedList name) :=
    agree_typed_list fun _ _ => agree_name
  refine agree_form (agree_keyword "define" (by decide)) fun _ => ?_
  refine agree_next (agree_clause "domain" (by decide) (agree_loose agree_name)) fun a b title => ?_
  refine agree_bind_same 0 (agree_opt_same (agree_loose agree_requirements)) fun requirements => ?_
  refine agree_bind 0 (agree_opt (agree_loose (agree_licensed ":types" (by decide) _ names))) fun ts ts' ofTypes => ?_
  refine agree_bind 0 (agree_opt (agree_loose (agree_clause ":constants" (by decide) names)))
    fun cs cs' ofConstants => ?_
  refine agree_bind 0 (agree_opt (agree_loose agree_predicates)) fun ps ps' ofPredicates => ?_
  refine agree_bind_same 0 (agree_opt_same (agree_loose agree_functions)) fun functions => ?_
  refine agree_bind 0 (agree_many agree_action) fun actions actions' ofActions => agree_pure ?_
  simp only [DomainFile.content, title, listed_same _ _ ofTypes, listed_same _ _ ofConstants,
    listed_same _ _ ofPredicates, ofActions]

end Domains

section Problems

variable {R : Type} {n m : Nat}

def ProblemFile.content (file : ProblemFile R) : String × String × List Term × Init R × Goal R :=
  (file.name, file.domain.2, file.objects.map Prod.snd, file.init, file.goal)

theorem checked_problem (d : Domain R) (file other : ProblemFile R) (same : file.content = other.content)
    (checked : file.Checked d) : other.Checked d ∧ other.problem d = file.problem d := by
  simp only [ProblemFile.content, Prod.mk.injEq] at same
  obtain ⟨name, domain, objects, init, goal⟩ := same
  constructor
  · exact ⟨domain ▸ checked.domain, objects ▸ checked.distinct, objects ▸ checked.fresh, objects ▸ checked.types⟩
  · simp only [ProblemFile.problem, name, objects, init, goal]

theorem check_problem (d : Domain R) (file other : ProblemFile R) (same : file.content = other.content)
    (p : Problem R) : file.check d = .ok p ↔ other.check d = .ok p := by
  rw [ProblemFile.check_ok_iff, ProblemFile.check_ok_iff]
  constructor
  · rintro ⟨checked, rfl⟩
    exact checked_problem d file other same checked
  · rintro ⟨checked, rfl⟩
    exact checked_problem d other file same.symm checked

variable [Number R]

theorem agree_problem_file : Agree (R := R) n m 1 ProblemFile.content problemFile problemFile := by
  have names {n m : Nat} : Agree (R := R) n m 0 (List.map Prod.snd) (typedList name) (typedList name) :=
    agree_typed_list fun _ _ => agree_name
  refine agree_form (agree_keyword "define" (by decide)) fun _ => ?_
  refine agree_next (agree_clause "problem" (by decide) (agree_loose agree_name)) fun a b title => ?_
  refine agree_next (agree_clause ":domain" (by decide) (agree_loose agree_name)) fun domain domain' named => ?_
  refine agree_bind_same 0 (agree_opt_same (agree_loose agree_requirements)) fun _ => ?_
  refine agree_bind 0 (agree_opt (agree_loose (agree_clause ":objects" (by decide) names))) fun os os' ofObjects => ?_
  refine agree_next_same agree_init fun init => ?_
  refine agree_next_same (agree_clause ":goal" (by decide) (agree_loose agree_query)) fun goal => ?_
  refine agree_bind_same 0 (agree_opt_same (agree_loose (agree_licensed ":goal-reward" (by decide) _
    (agree_loose agree_number)))) fun reward => ?_
  refine agree_bind_same 0 (agree_opt_same (agree_loose agree_metric)) fun metric => agree_pure ?_
  simp only [ProblemFile.content, title, named, listed_same _ _ ofObjects]

end Problems

section Texts

variable {R α β γ : Type} {view : α → γ}

theorem retyped_empty (xs ys : List Char) (retyped : Retyped xs ys) : xs.isEmpty = ys.isEmpty := by
  cases retyped_heads xs ys retyped <;> rfl

theorem agree_parse_all {p : Parser R α} (agree : ∀ n m, Agree n m 1 view p p) (text other : String)
    (retyped : Retyped text.toList other.toList) (inProblem : Bool) (G : RequirementSet) :
    (∃ a b, parseAll p (Cursor.ofText text inProblem G) = .ok a ∧ parseAll p (Cursor.ofText other inProblem G) = .ok b ∧
        view a = view b) ∨
      (∃ e, parseAll p (Cursor.ofText text inProblem G) = .error e) ∧
        ∃ e, parseAll p (Cursor.ofText other inProblem G) = .error e := by
  have whole (n m : Nat) : Agree n m 0 view (blanks >>= fun _ => p) (blanks >>= fun _ => p) :=
    agree_bind_same 0 agree_blanks fun _ => agree_loose (agree n m)
  have reply := whole _ _ (Cursor.ofText text inProblem G) (Cursor.ofText other inProblem G)
    ⟨retyped, rfl, Nat.lt_succ_self _, Nat.lt_succ_self _⟩
  simp only [parseAll]
  generalize (blanks >>= fun _ => p) (Cursor.ofText text inProblem G) = x at reply ⊢
  generalize (blanks >>= fun _ => p) (Cursor.ofText other inProblem G) = y at reply ⊢
  cases reply with
  | miss e f => exact .inr ⟨⟨_, rfl⟩, ⟨_, rfl⟩⟩
  | fail e f => exact .inr ⟨⟨_, rfl⟩, ⟨_, rfl⟩⟩
  | @done a b next last value near =>
      simp only [retyped_empty _ _ near.text]
      split
      · exact .inl ⟨a, b, rfl, rfl, value⟩
      · exact .inr ⟨⟨_, rfl⟩, ⟨_, rfl⟩⟩

theorem agree_checked {p : Parser R α} (agree : ∀ n m, Agree n m 1 view p p) (check : α → Except (Error R) β)
    (blind : ∀ a b, view a = view b → ∀ made, check a = .ok made ↔ check b = .ok made) (text other : String)
    (retyped : Retyped text.toList other.toList) (inProblem : Bool) (G : RequirementSet) (made : β) :
    (parseAll p (Cursor.ofText text inProblem G) >>= check) = .ok made ↔
      (parseAll p (Cursor.ofText other inProblem G) >>= check) = .ok made := by
  rcases agree_parse_all agree text other retyped inProblem G with ⟨a, b, first, second, same⟩ | ⟨⟨e, first⟩, f, second⟩
  · rw [first, second]
    exact blind a b same made
  · rw [first, second]
    exact ⟨by rintro ⟨⟩, by rintro ⟨⟩⟩

end Texts

end Source

open Source

/-- Neither the case of letters nor blanks and comments mean anything to a domain or a problem. -/
theorem layout_and_case_carry_no_meaning {R : Type} [Number R] (text other : String)
    (retyped : Retyped text.toList other.toList) :
    (∀ d : Domain R, Domain.parse text = .ok d ↔ Domain.parse other = .ok d) ∧
      ∀ (d : Domain R) (p : Problem R), Problem.parse d text = .ok p ↔ Problem.parse d other = .ok p := by
  constructor
  · exact agree_checked (fun _ _ => agree_domain_file) DomainFile.check check_content text other retyped false []
  · intro d
    exact agree_checked (fun _ _ => agree_problem_file) (ProblemFile.check d) (check_problem d) text other retyped
      true _

def lampText : String := "(define (domain lamp) (:predicates (lit)))"

def shoutedText : String := "(DEFINE ; all there is\n (Domain LAMP)\t(:predicates\n(Lit)))"

theorem layout_and_case_carry_no_meaning_lamp : Retyped lampText.toList shoutedText.toList ∧
    ∃ d : Domain Float, Domain.parse lampText = .ok d ∧ Domain.parse shoutedText = .ok d ∧ d.name = "lamp" ∧
      d.predicates.map Atom.name = ["lit"] := by
  have retyped : Retyped lampText.toList shoutedText.toList := by
    have line : '\n' ∉ " all there is".toList := by decide
    have space (c : Char) (blank : isBlank c = true) : Layout [c] := .blank blank .nothing
    have comment : Layout " ; all there is\n ".toList := .blank rfl (.comment line (space ' ' rfl))
    exact retyped_word "(define".toList "(DEFINE".toList _ _ (by decide) (by decide) <|
      .layout (space ' ' rfl) comment (by simp) (by simp) <|
      retyped_word "(domain".toList "(Domain".toList _ _ (by decide) (by decide) <|
      .layout (space ' ' rfl) (space ' ' rfl) (by simp) (by simp) <|
      retyped_word "lamp)".toList "LAMP)".toList _ _ (by decide) (by decide) <|
      .layout (space ' ' rfl) (space '\t' rfl) (by simp) (by simp) <|
      retyped_word "(:predicates".toList "(:predicates".toList _ _ (by decide) (by decide) <|
      .layout (space ' ' rfl) (space '\n' rfl) (by simp) (by simp) <|
      retyped_word "(lit)))".toList "(Lit)))".toList [] [] (by decide) (by decide) .ended
  have run : ((Domain.parse (R := Float) lampText).map fun d => (d.name, d.predicates.map Atom.name)).toOption =
      some ("lamp", ["lit"]) := by
    rw [Domain.parse, Cursor.ofText, lampText, String.toList_ofList]
    decide +kernel
  rw [to_option_iff] at run
  obtain ⟨d, parsed, same⟩ := (map_ok_iff _ _ _).mp run
  obtain ⟨name, predicates⟩ := Prod.mk.injEq _ _ _ _ ▸ same
  exact ⟨retyped, d, parsed, ((layout_and_case_carry_no_meaning lampText shoutedText retyped).1 d).mp parsed, name,
    predicates⟩

end Replan
