import Replan.Proofs.Source.LocatedFormulas
import Replan.Source.ProblemFile

set_option autoImplicit false

namespace Replan.Source

open Replan.Source.Parser

variable {R α : Type} {s : Cursor} {p : Parser R α}

def atomNames (atoms : List (Span × Atom)) : NameList := atoms.map fun entry => (entry.1, entry.2.name)

section Sections

theorem points_requirement : Points (R := R) s anyRequirement := by
  refine points_first_of _ (points_choice Requirement.strips ":strips") fun parser member => ?_
  obtain ⟨r, -, rfl⟩ := List.mem_map.mp member
  exact points_choice r r.keyword

theorem points_requirements : Points (R := R) s requirementsSection := by
  refine points_bind (points_form (points_keyword ":requirements") fun _ =>
    points_cut (points_many_one points_requirement)) fun declared => ?_
  exact points_then _ (points_declare _)

theorem lists_clause (w : String) {view : α → NameList} (lists : Lists s view p) : Lists s view (clause w p) :=
  fun before => follows_parens (follows_bind (points_keyword w before) fun _ => follows_cut (lists before))

theorem lists_licensed (w : String) (oneOf : RequirementSet) {view : α → NameList} (lists : Lists s view p) :
    Lists s view (licensed w oneOf p) :=
  fun before => follows_parens (follows_bind (points_licensed_word oneOf w before) fun _ => follows_cut (lists before))

theorem points_clause (w : String) (points : Points s p) : Points s (clause w p) :=
  points_of_lists (lists_clause w (lists_nothing points))

theorem points_licensed (w : String) (oneOf : RequirementSet) (points : Points s p) : Points s (licensed w oneOf p) :=
  points_of_lists (lists_licensed w oneOf (lists_nothing points))

theorem lists_declaration : Lists (R := R) s (fun entry => [(entry.1, entry.2.name)]) declaration := by
  intro before
  refine follows_parens (follows_bind (lists_name before) fun entry => ?_)
  exact follows_bind (points_of_lists (lists_typed_list lists_variable) _) fun args => follows_pure _ rfl

theorem lists_predicates : Lists (R := R) s atomNames predicatesSection := by
  have declared : (fun as => as.flatMap fun entry : Span × Atom => [(entry.1, entry.2.name)]) = atomNames :=
    funext fun as => List.map_eq_flatMap.symm
  exact lists_clause ":predicates" (declared ▸ lists_many lists_declaration)

theorem points_functions : Points (R := R) s functionsSection := by
  refine points_licensed ":functions" _ (points_many (points_bind (points_of_lists lists_declaration) fun f => ?_))
  exact points_then _ (points_opt (points_bind (points_sign '-') fun _ => points_keyword "number"))

theorem points_direction : Points (R := R) s direction :=
  points_either (points_choice _ "minimize") (points_choice _ "maximize")

theorem points_field (w : String) (points : Points s p) : Points s (opt (keyword w >>= fun _ => p)) :=
  points_opt (points_bind (points_keyword w) fun _ => points)

variable [Number R]

theorem lists_action : Lists (R := R) s (fun entry => termNames entry.2) actionSection := by
  have parameters : Lists (R := R) s (fun entries => termNames (entries.getD []))
      (opt (keyword ":parameters" >>= fun _ => parens (typedList variableName))) :=
    lists_opt rfl fun before => follows_bind (points_keyword ":parameters" before) fun _ => lists_variables before
  intro before
  refine follows_named _ nofun (lists_clause ":action" (fun before => ?_) before)
  refine follows_bind (points_of_lists lists_name before) fun _ => follows_bind (parameters before) fun entries => ?_
  refine follows_bind (points_field ":precondition" points_query _) fun _ => ?_
  refine follows_bind (points_field ":effect" points_effect _) fun _ => ?_
  exact follows_pure _ rfl

theorem points_init : Points (R := R) s initSection := by
  refine points_then _ (points_clause ":init" (points_many (points_either ?_ (points_then _ points_atom))))
  exact points_form (points_keyword "=") fun _ => points_bind points_atom fun _ => points_then _ points_number

theorem points_metric : Points (R := R) s metricSection :=
  points_clause ":metric" (points_bind points_direction fun _ => points_then _ points_expression)

end Sections

section Files

variable [Number R]

def DomainFile.names (file : DomainFile R) : NameList :=
  termNames file.types ++ termNames file.constants ++ atomNames file.predicates ++
    file.actions.flatMap fun entry => termNames entry.2

theorem lists_domain_file : Lists (R := R) s DomainFile.names domainFile := by
  have objects (w : String) : Lists (R := R) s (fun entries => termNames (entries.getD [])) (opt (clause w (typedList name))) :=
    lists_opt rfl (lists_clause w (lists_typed_list lists_name))
  have types : Lists (R := R) s (fun entries => termNames (entries.getD []))
      (opt (licensed ":types" [.typing] (typedList name))) :=
    lists_opt rfl (lists_licensed ":types" _ (lists_typed_list lists_name))
  have predicates : Lists (R := R) s (fun entries => atomNames (entries.getD [])) (opt predicatesSection) :=
    lists_opt rfl lists_predicates
  intro before
  refine follows_parens (follows_bind (points_keyword "define" before) fun _ => ?_)
  refine follows_bind (points_clause "domain" (points_of_lists lists_name) before) fun _ => ?_
  refine follows_bind (points_opt points_requirements before) fun _ => ?_
  refine follows_bind (types before) fun _ => follows_bind (objects ":constants" _) fun _ => ?_
  refine follows_bind (predicates _) fun _ => follows_bind (points_opt points_functions _) fun _ => ?_
  refine follows_bind (lists_many lists_action _) fun _ => follows_pure _ ?_
  simp only [DomainFile.names, List.append_assoc]

def ProblemFile.names (file : ProblemFile R) : NameList := file.domain :: termNames file.objects

theorem lists_problem_file : Lists (R := R) s ProblemFile.names problemFile := by
  have objects : Lists (R := R) s (fun entries => termNames (entries.getD [])) (opt (clause ":objects" (typedList name))) :=
    lists_opt rfl (lists_clause ":objects" (lists_typed_list lists_name))
  intro before
  refine follows_parens (follows_bind (points_keyword "define" before) fun _ => ?_)
  refine follows_bind (points_clause "problem" (points_of_lists lists_name) before) fun _ => ?_
  refine follows_bind (lists_clause ":domain" lists_name before) fun _ => ?_
  refine follows_bind (points_opt points_requirements _) fun _ => follows_bind (objects _) fun _ => ?_
  refine follows_bind (points_init _) fun _ => follows_bind (points_clause ":goal" points_query _) fun _ => ?_
  refine follows_bind (points_opt (points_licensed ":goal-reward" _ points_number) _) fun _ => ?_
  refine follows_bind (points_opt points_metric _) fun _ => follows_pure _ ?_
  simp only [ProblemFile.names, List.append_assoc, List.singleton_append]

end Files

theorem parse_all_located (start : Cursor) (view : α → NameList) (lists : Lists start view p) :
    (∀ a, parseAll p start = .ok a → ∃ c, start.Names (view a) c) ∧
      ∀ e, parseAll p start = .error e → start.Sees e.toDiagnostic ∧ e.cause = none := by
  have whole : Follows start [] (blanks >>= fun _ => p) view :=
    follows_bind (points_blanks []) fun _ => lists []
  have reply := whole start .start
  rw [parseAll]
  generalize (blanks >>= fun _ => p) start = x at reply ⊢
  cases reply with
  | miss seen =>
      refine ⟨fun a same => (by cases same), fun e failed => ?_⟩
      cases failed
      exact ⟨seen, rfl⟩
  | fail seen =>
      refine ⟨fun a same => (by cases same), fun e failed => ?_⟩
      cases failed
      exact ⟨seen, rfl⟩
  | @done a next _ read =>
      by_cases finished : next.rest.isEmpty = true
      · simp only [if_pos finished]
        refine ⟨fun b same => ?_, fun e failed => (by cases failed)⟩
        cases same
        exact ⟨next, read⟩
      · simp only [if_neg finished]
        refine ⟨fun b same => (by cases same), fun e failed => ?_⟩
        cases failed
        exact ⟨⟨Cursor.spans_rest (Cursor.names_reached read), nofun⟩, rfl⟩

end Replan.Source
