import Replan.Proofs.Source.FileChecks
import Replan.Proofs.Source.SectionText

set_option autoImplicit false

namespace Replan

open Results

namespace Source

open Replan.Source.Parser

variable {R α : Type} {G : RequirementSet} {T B : List Char → Prop}

theorem takes_ending {p : Parser R α} {text : List Char} {P : α → Prop}
    (reads : Takes (fun _ => True) G p text P) : Takes T G p (text ++ ['\n']) P := by
  intro tail _
  rw [List.append_assoc]
  exact reads ('\n' :: tail) trivial

theorem takes_declaration (a : Atom) (declared : a.Declaration (Opens G)) :
    Takes (R := R) T G declaration a.declaration.toList (fun entry => entry.2 = a.asRead) := by
  have shape : a.declaration.toList =
      '(' :: ((a.name.toList ++ if a.args = [] then [] else ' ' :: (Term.listText a.args).toList) ++ [')']) := by
    rw [Atom.declaration]
    by_cases none : a.args = []
    · simp [none]
    · simp [none]
  have list := takes_typed_list (R := R) variables_words a.args declared.2
  rw [shape]
  refine takes_parens (takes_bind (takes_name a.name declared.1) (fun tail closing => ?_) fun entry same => ?_)
  · split
    · exact closing_ended tail closing
    · exact ended_spaced _
  · refine takes_then_pure (P := fun args => args.map Prod.snd = Term.spellOut a.args) _ ?_ fun args found => ?_
    · split
      · next none =>
          rw [none] at list ⊢
          exact list
      · exact takes_space list
    · rw [same, found]
      rfl

theorem declaration_solid (a : Atom) : Solid a.declaration.toList := by
  rw [Atom.declaration]
  split
  · rw [String.toList_append, String.toList_append]
    exact paren_solid _
  · simp only [String.toList_append]
    exact paren_solid _

theorem closing_misses_parens {p : Parser R α} (tail : List Char) (closing : Closing tail) :
    Misses (parens p) ⟨skip tail, G⟩ := by
  rw [closing_skip tail closing]
  refine parens_misses tail ?_
  rw [closing]
  decide

theorem takes_declarations (as : List Atom) (declared : ∀ a ∈ as, a.Declaration (Opens G)) :
    Takes (R := R) Closing G (many declaration) (as.flatMap fun a => ' ' :: a.declaration.toList)
      (fun entries => entries.map Prod.snd = as.map Atom.asRead) :=
  takes_weaken (takes_many (B := Ended) (S := fun a entry => entry.2 = a.asRead) closing_misses_parens closing_ended
    (fun a _ => item_spaced _ (declaration_solid a)) fun a member => takes_space (takes_declaration a (declared a member)))
    fun entries found => forall_two_map Prod.snd Atom.asRead as entries found

def Undashed (rest : List Char) : Prop := (skip rest).head? ≠ some '-'

theorem closing_undashed (rest : List Char) (closing : Closing rest) : Undashed rest := by
  rw [Undashed, closing_skip rest closing, closing]
  decide

theorem item_undashed (a : Atom) : Item Undashed (' ' :: a.declaration.toList) where
  apart rest := by
    have solid := declaration_solid a
    rw [Undashed, List.cons_append, skip_space, skip_solid _ _ solid, Atom.declaration]
    split <;> simp
  grows := spaced_grows _ (declaration_solid a)

theorem takes_functions (fs : List Atom) (declared : ∀ f ∈ fs, f.Declaration (Opens G)) :
    Takes (R := R) Closing G
      (many do
        let (_, f) ← declaration
        let _ ← opt do
          sign '-'
          keyword "number"
        pure f)
      (fs.flatMap fun f => ' ' :: f.declaration.toList) (· = fs.map Atom.asRead) := by
  refine takes_weaken (takes_many (B := Undashed) (S := fun f g => id g = Atom.asRead f)
    (fun tail closing => misses_bind (closing_misses_parens tail closing)) closing_undashed
    (fun f _ => item_undashed f) fun f member tail undashed => ?_) fun gs found => ?_
  · refine reads_bind (takes_space (takes_declaration f (declared f member)) tail undashed) fun entry same => ?_
    exact reads_then_pure _ (opt_nothing (Q := fun _ => True) (misses_bind (sign_misses '-' _ undashed)) trivial)
      fun _ _ => same
  · rw [← forall_two_map id Atom.asRead fs gs found, List.map_id]

def listItems (ts : List Term) : List String := if ts.isEmpty then [] else [Term.listText ts]

theorem list_clause (w : String) (ts : List Term) :
    (if ts.isEmpty then "" else Domain.clause w [Term.listText ts]) = Domain.clause w (listItems ts) := by
  rw [listItems]
  split <;> rfl

theorem list_items_some (ts : List Term) (some : listItems ts ≠ []) :
    (listItems ts).flatMap (fun item => ' ' :: item.toList) = ' ' :: (Term.listText ts).toList := by
  rw [listItems] at some ⊢
  split
  · next none => exact absurd (if_pos none) some
  · simp

theorem list_items_none (ts : List Term) (none : listItems ts = []) : ts = [] := by
  rw [listItems] at none
  split at none
  · next empty => exact List.isEmpty_iff.mp empty
  · cases none

theorem takes_section_list {body : Parser R (List (Span × Term))} {p : Parser R Unit} (w : String)
    (ts : List Term) (some : listItems ts ≠ []) (reads : Takes Ended G p w.toList (fun _ => True))
    (list : Takes Closing G body (Term.listText ts).toList (fun entries => entries.map Prod.snd = Term.spellOut ts)) :
    Takes (fun _ => True) G (parens do
      p
      cut body) ('(' :: ((w.toList ++ (listItems ts).flatMap fun item => ' ' :: item.toList) ++ [')']))
      (fun entries => entries.map Prod.snd = Term.spellOut ts) := by
  rw [list_items_some ts some]
  exact takes_after reads (spaced_more _) (takes_cut (takes_space list))

def indented (text : List Char) : List Char := '\n' :: ' ' :: ' ' :: ' ' :: ' ' :: text

theorem takes_indented {p : Parser R α} {text : List Char} {P : α → Prop} (reads : Takes T G p text P) :
    Takes T G p (indented text) P := reads

theorem skip_indented (text rest : List Char) : skip (indented text ++ rest) = skip (text ++ rest) := rfl

theorem takes_labelled {body : Parser R α} {text : List Char} {P : Option α → Prop} (w : String) (word : IsWord w)
    (reads : Takes T G body text (fun a => P (some a))) :
    Takes T G (opt do
      keyword w
      body) (indented (w.toList ++ ' ' :: text)) P := by
  refine takes_indented fun tail follows => opt_reads (P := fun a => P (some a)) ?_ fun _ => id
  exact takes_bind (takes_keyword w word.lower word.solid) (fun _ _ => ended_spaced _) (fun _ _ => takes_space reads)
    tail follows

section Actions

variable [Number R] {finite : R → Prop}

def parametersPart (a : Action R) : List Char :=
  indented (":parameters".toList ++ ' ' :: '(' :: ((Term.listText a.parameters).toList ++ [')']))

def preconditionPart (a : Action R) : List Char :=
  if a.precondition.isEmpty then [] else indented (":precondition".toList ++ ' ' :: a.precondition.text.toList)

def effectPart (a : Action R) : List Char := indented (":effect".toList ++ ' ' :: a.effect.text.toList)

def actionBody (a : Action R) : List Char :=
  ' ' :: (a.name.toList ++ (parametersPart a ++ (preconditionPart a ++ effectPart a)))

theorem action_text (a : Action R) : (a.text ++ "\n").toList =
    ' ' :: ' ' :: (('(' :: ((":action".toList ++ actionBody a) ++ [')'])) ++ ['\n']) := by
  rw [actionBody, preconditionPart]
  unfold Action.text
  by_cases written : a.precondition.isEmpty = true
  · rw [if_pos written, if_pos written]
    simp [parametersPart, effectPart, indented]
  · rw [if_neg written, if_neg written]
    simp [parametersPart, effectPart, indented]

omit [Number R] in
theorem takes_parameters (a : Action R) (declares : Declares IsVariable (Opens G) a.parameters) :
    Takes (R := R) T G (opt do
      keyword ":parameters"
      parens (typedList variableName)) (parametersPart a)
      (fun found => (found.getD []).map Prod.snd = Term.spellOut a.parameters) :=
  takes_labelled _ (by decide) (takes_parens (takes_typed_list variables_words a.parameters declares))

theorem takes_precondition (readable : Readable finite) (a : Action R)
    (legible : a.precondition.isEmpty = false → a.precondition.Legible (Opens G) finite) :
    Takes (fun tail => ∃ rest, tail = indented (":effect".toList) ++ ' ' :: rest) G
      (opt do
        keyword ":precondition"
        query) (preconditionPart a) (fun found => found.getD .always = a.asRead.precondition) := by
  rw [preconditionPart, Action.asRead]
  split
  · rintro _ ⟨rest, rfl⟩
    refine opt_nothing (misses_bind ?_) rfl
    rw [List.nil_append, skip_indented]
    exact keyword_misses_word ":precondition" ":effect" _ (by decide) (by decide) (by decide) (ended_spaced rest)
  · next written =>
      refine takes_labelled _ (by decide) (takes_fewer (takes_query readable a.precondition (legible ?_)) ?_)
      · simpa using written
      · rintro _ ⟨rest, rfl⟩
        exact ended_lined _

theorem takes_effect_part [Number.ZerosAlike R] (readable : Readable finite) (a : Action R)
    (legible : a.effect.Legible (Opens G) finite) :
    Takes Ended G (opt do
      keyword ":effect"
      effect) (effectPart a) (fun found => found.getD .skip = a.effect.asRead) :=
  takes_labelled _ (by decide) (takes_effect readable a.effect legible)

theorem takes_action [Number.ZerosAlike R] (readable : Readable finite) (a : Action R)
    (legible : a.Legible (Opens G) finite) :
    Takes (fun _ => True) G actionSection ('(' :: ((":action".toList ++ actionBody a) ++ [')']))
      (fun entry => entry.1 = a.asRead ∧ entry.2.map Prod.snd = a.asRead.parameters) := by
  have ending (rest : List Char) : Ended (indented rest) := ended_lined _
  refine takes_named _ (takes_after (takes_keyword _ (by decide) (by decide)) (spaced_more _) (takes_cut ?_))
  refine takes_bind (takes_space (takes_name a.name legible.name)) (fun _ _ => ending _) fun entry name => ?_
  refine takes_bind (takes_parameters (T := fun _ => True) a legible.parameters) (fun _ _ => trivial) fun parameters first => ?_
  refine takes_bind (takes_precondition readable a legible.precondition)
    (fun tail _ => ⟨a.effect.text.toList ++ tail, by simp [effectPart, indented]⟩) fun precondition second => ?_
  refine takes_then_pure _ (takes_fewer (takes_effect_part readable a legible.effect) closing_ended) fun effect third => ?_
  simp only [name, first, second, third]
  exact ⟨rfl, rfl⟩

theorem item_action (a : Action R) : Item Ended (a.text ++ "\n").toList where
  apart rest := by
    rw [action_text]
    exact ended_spaced _
  grows rest := by
    rw [action_text, List.cons_append, List.cons_append, skip_space, skip_space, List.append_assoc,
      skip_solid _ _ (paren_solid _)]
    simp
    omega

theorem takes_actions [Number.ZerosAlike R] (readable : Readable finite) (actions : List (Action R))
    (legible : ∀ a ∈ actions, a.Legible (Opens G) finite) :
    Takes Closing G (many actionSection) (actions.flatMap fun a => (a.text ++ "\n").toList)
      (List.Forall₂ (fun a entry => entry.1 = a.asRead ∧ entry.2.map Prod.snd = a.asRead.parameters) actions) := by
  refine takes_many (fun tail closing => named_misses _ (closing_misses_parens tail closing)) closing_ended
    (fun a _ => item_action a) fun a member => ?_
  rw [action_text]
  exact takes_space (takes_space (takes_ending (takes_action readable a (legible a member))))

theorem starts_actions (actions : List (Action R)) (tail : List Char) :
    Starts [":action"] ((actions.flatMap fun a => (a.text ++ "\n").toList) ++ ')' :: tail) := by
  cases actions with
  | nil => exact .inl rfl
  | cons a actions =>
      rw [Starts, List.flatMap_cons, action_text, List.append_assoc, List.cons_append, List.cons_append, skip_space,
        skip_space, List.append_assoc, skip_solid _ _ (paren_solid _), List.cons_append, List.append_assoc,
        List.append_assoc]
      exact .inr ⟨_, List.mem_singleton_self _, _, rfl, ended_spaced _⟩

end Actions

theorem reads_requirements (rs : RequirementSet) (canonical : RequirementSet.ofList rs = rs) (ws : List String)
    (rest : List Char) (starts : Starts ws rest) (words : ∀ w ∈ ws, IsWord w ∧ ":requirements" ≠ w) :
    Reads (R := R) (opt requirementsSection)
      ⟨skip ((Domain.clause ":requirements" (rs.map Requirement.keyword)).toList ++ rest), []⟩
      ⟨skip rest, RequirementSet.closure rs⟩ (fun found => found.getD [] = rs) := by
  by_cases nonempty : rs = []
  · subst nonempty
    exact opt_nothing (misses_bind (clause_misses _ ws rest starts words (by decide))) rfl
  · have declared : Takes (R := R) (fun _ => True) [] (parens do
        keyword ":requirements"
        cut (many1 anyRequirement))
        ('(' :: ((":requirements".toList ++ rs.flatMap fun r => ' ' :: r.keyword.toList) ++ [')'])) (· = rs) :=
      takes_after (takes_keyword _ (by decide) (by decide)) (spaced_items rs fun r => r.keyword.toList)
        (takes_cut (takes_requirements rs nonempty))
    have reads := declared ('\n' :: rest) trivial
    rw [skip_solid _ _ (paren_solid _), List.cons_append, List.append_assoc, skip_line] at reads
    rw [section_text _ _ (by simpa using nonempty), List.flatMap_map]
    refine opt_reads (P := (· = rs)) (reads_bind reads fun found same => ?_) fun found same => same
    subst same
    refine reads_bind (declare_reads _ _) fun _ _ => ?_
    rw [RequirementSet.union_nothing]
    exact reads_pure _ _ canonical

theorem reads_types (ts : List Term) (declares : Declares IsName (Opens G) ts)
    (typing : ts ≠ [] → Opens G [.typing]) (ws : List String) (rest : List Char) (starts : Starts ws rest)
    (words : ∀ w ∈ ws, IsWord w ∧ ":types" ≠ w) :
    Reads (R := R) (opt (licensed ":types" [.typing] (typedList name)))
      ⟨skip ((Domain.clause ":types" (listItems ts)).toList ++ rest), G⟩ ⟨skip rest, G⟩
      (fun found => (found.getD []).map Prod.snd = Term.spellOut ts) := by
  refine reads_section _ _ rest (fun some => ?_) (fun none => ?_) (licensed_misses _ ws rest starts words (by decide))
  · refine takes_section_list _ ts some (takes_requires _ (takes_keyword _ (by decide) (by decide)) (typing ?_))
      (takes_typed_list names_words ts declares)
    rintro rfl
    exact some rfl
  · rw [list_items_none ts none]
    rfl

theorem reads_names (w : String) (word : IsWord w ∧ Unbroken w) (ts : List Term) (declares : Declares IsName (Opens G) ts)
    (ws : List String) (rest : List Char) (starts : Starts ws rest) (words : ∀ v ∈ ws, IsWord v ∧ w ≠ v) :
    Reads (R := R) (opt (clause w (typedList name)))
      ⟨skip ((Domain.clause w (listItems ts)).toList ++ rest), G⟩ ⟨skip rest, G⟩
      (fun found => (found.getD []).map Prod.snd = Term.spellOut ts) := by
  refine reads_section _ _ rest (fun some => ?_) (fun none => ?_) (clause_misses _ ws rest starts words word.2)
  · exact takes_section_list _ ts some (takes_keyword _ word.1.lower word.1.solid)
      (takes_typed_list names_words ts declares)
  · rw [list_items_none ts none]
    rfl

theorem reads_predicates (as : List Atom) (declared : ∀ a ∈ as, a.Declaration (Opens G)) (ws : List String)
    (rest : List Char) (starts : Starts ws rest) (words : ∀ w ∈ ws, IsWord w ∧ ":predicates" ≠ w) :
    Reads (R := R) (opt predicatesSection)
      ⟨skip ((Domain.clause ":predicates" (as.map Atom.declaration)).toList ++ rest), G⟩ ⟨skip rest, G⟩
      (fun found => (found.getD []).map Prod.snd = as.map Atom.asRead) := by
  refine reads_section _ _ rest (fun _ => ?_) (fun none => ?_) (clause_misses _ ws rest starts words (by decide))
  · rw [List.flatMap_map]
    exact takes_after (takes_keyword _ (by decide) (by decide)) (spaced_items as fun a => a.declaration.toList)
      (takes_cut (takes_declarations as declared))
  · rw [List.map_eq_nil_iff.mp none]
    rfl

theorem reads_functions (fs : List Atom) (declared : ∀ f ∈ fs, f.Declaration (Opens G) ∧ Opens G fluentRequirements)
    (ws : List String) (rest : List Char) (starts : Starts ws rest) (words : ∀ w ∈ ws, IsWord w ∧ ":functions" ≠ w) :
    Reads (R := R) (opt functionsSection)
      ⟨skip ((Domain.clause ":functions" (fs.map Atom.declaration)).toList ++ rest), G⟩ ⟨skip rest, G⟩
      (fun found => found.getD [] = fs.map Atom.asRead) := by
  refine reads_section _ _ rest (fun some => ?_) (fun none => ?_) (licensed_misses _ ws rest starts words (by decide))
  · obtain ⟨f, member⟩ := List.exists_mem_of_ne_nil fs fun none => some (by rw [none]; rfl)
    rw [List.flatMap_map]
    exact takes_after (takes_requires _ (takes_keyword _ (by decide) (by decide)) (declared f member).2)
      (spaced_items fs fun f => f.declaration.toList) (takes_cut (takes_functions fs fun g known => (declared g known).1))
  · rw [List.map_eq_nil_iff.mp none]
    rfl

variable [Number R] {finite : R → Prop}

structure Writes (file : DomainFile R) (d : Domain R) : Prop where
  name : file.name = d.name
  requirements : file.requirements = d.requirements
  types : file.types.map Prod.snd = Term.spellOut d.types.declarations
  constants : file.constants.map Prod.snd = Term.spellOut d.constants
  predicates : file.predicates.map Prod.snd = d.predicates.map Atom.asRead
  functions : file.functions = d.functions.map Atom.asRead
  actions : List.Forall₂ (fun a entry => entry.1 = a.asRead ∧ entry.2.map Prod.snd = a.asRead.parameters) d.actions
    file.actions

def sectionsText (d : Domain R) : List Char :=
  (Domain.clause ":requirements" (d.requirements.map Requirement.keyword)).toList ++
    ((Domain.clause ":types" (listItems d.types.declarations)).toList ++
      ((Domain.clause ":constants" (listItems d.constants)).toList ++
        ((Domain.clause ":predicates" (d.predicates.map Atom.declaration)).toList ++
          ((Domain.clause ":functions" (d.functions.map Atom.declaration)).toList ++
            d.actions.flatMap fun a => (a.text ++ "\n").toList))))

theorem domain_text (d : Domain R) : d.text.toList =
    '(' :: (("define".toList ++ ' ' :: ('(' :: (("domain".toList ++ ' ' :: d.name.toList) ++ [')']) ++
      '\n' :: sectionsText d)) ++ [')']) := by
  have types : d.types.isEmpty = d.types.declarations.isEmpty := by
    rw [Hierarchy.isEmpty, Hierarchy.declarations, List.isEmpty_map]
  unfold Domain.text
  rw [types, Hierarchy.text, list_clause, list_clause]
  simp [sectionsText, String.toList_join, List.flatMap_map]

theorem declarations_spelled (h : Hierarchy) : Term.spellOut h.declarations = h.declarations := by
  refine (List.map_congr_left fun t member => ?_).trans (List.map_id _)
  obtain ⟨pair, -, rfl⟩ := List.mem_map.mp member
  rw [Term.spelled]
  split <;> rfl

theorem sections_read [Number.ZerosAlike R] (readable : Readable finite) (d : Domain R)
    (legible : d.Legible (Opens (RequirementSet.closure d.requirements)) finite) (tail : List Char) :
    Reads
      (do
        let requirements ← opt requirementsSection
        let types ← opt (licensed ":types" [.typing] (typedList name))
        let constants ← opt (clause ":constants" (typedList name))
        let predicates ← opt predicatesSection
        let functions ← opt functionsSection
        let actions ← many actionSection
        pure
          { name := d.name
            requirements := requirements.getD []
            types := types.getD []
            constants := constants.getD []
            predicates := predicates.getD []
            functions := functions.getD []
            actions })
      ⟨skip (sectionsText d ++ ')' :: tail), []⟩ ⟨')' :: tail, RequirementSet.closure d.requirements⟩ (Writes · d) := by
  have actions := starts_actions d.actions tail
  have functions := starts_section ":functions" (d.functions.map Atom.declaration) _ _ actions
  have predicates := starts_section ":predicates" (d.predicates.map Atom.declaration) _ _ functions
  have constants := starts_section ":constants" (listItems d.constants) _ _ predicates
  have types := starts_section ":types" (listItems d.types.declarations) _ _ constants
  have typeNames : Declares IsName (Opens (RequirementSet.closure d.requirements)) d.types.declarations := by
    intro t member
    obtain ⟨pair, listed, rfl⟩ := List.mem_map.mp member
    obtain ⟨child, parent, typing⟩ := legible.types pair listed
    refine ⟨child, ?_⟩
    rintro kind ⟨⟩
    exact ⟨parent, typing⟩
  simp only [sectionsText, List.append_assoc]
  refine reads_bind (reads_requirements _ legible.requirements _ _ types (by decide)) fun rs requirements => ?_
  refine reads_bind (reads_types _ typeNames (fun some => ?_) _ _ constants (by decide)) fun ts found => ?_
  · obtain ⟨t, member⟩ := List.exists_mem_of_ne_nil _ some
    obtain ⟨pair, listed, rfl⟩ := List.mem_map.mp member
    exact (legible.types pair listed).2.2
  refine reads_bind (reads_names ":constants" (by decide) _ legible.constants _ _ predicates (by decide))
    fun cs objects => ?_
  refine reads_bind (reads_predicates _ legible.predicates _ _ functions (by decide)) fun ps facts => ?_
  refine reads_bind (reads_functions _ legible.functions _ _ actions (by decide)) fun fs fluents => ?_
  refine reads_then_pure _ (takes_actions readable d.actions legible.actions (')' :: tail) rfl) fun as steps => ?_
  exact ⟨rfl, requirements, found, objects, facts, fluents, steps⟩

theorem domain_file_reads [Number.ZerosAlike R] (readable : Readable finite) (d : Domain R)
    (legible : d.Legible (Opens (RequirementSet.closure d.requirements)) finite) :
    Reads domainFile ⟨skip d.text.toList, []⟩ ⟨[], RequirementSet.closure d.requirements⟩ (Writes · d) := by
  rw [domain_text, ← List.append_nil ('(' :: _), skip_solid _ _ (paren_solid _), List.cons_append, List.append_assoc,
    List.append_assoc]
  refine reads_parens [] (reads_bind (takes_keyword "define" (by decide) (by decide) _ (ended_spaced _)) fun _ _ => ?_)
  have header : Takes (R := R) (fun _ => True) [] (clause "domain" name)
      ('(' :: (("domain".toList ++ ' ' :: d.name.toList) ++ [')'])) (fun entry => entry.2 = d.name) :=
    takes_after (takes_keyword _ (by decide) (by decide)) (spaced_more _)
      (takes_cut (takes_fewer (takes_space (takes_name d.name legible.name)) closing_ended))
  rw [List.cons_append, skip_space, List.append_assoc]
  refine reads_bind (header _ trivial) fun ⟨span, n⟩ same => ?_
  cases same
  exact sections_read readable d legible []

omit [Number R] in
theorem parse_all_reads {p : Parser R α} {P : α → Prop} (text : String) (inProblem : Bool) (later : RequirementSet)
    (reads : Reads p ⟨skip text.toList, G⟩ ⟨[], later⟩ P) :
    ∃ a, parseAll p (Cursor.ofText text inProblem G) = .ok a ∧ P a := by
  have whole : Reads (do
      blanks
      p) ⟨text.toList, G⟩ ⟨[], later⟩ P := reads_bind (blanks_reads _) fun _ _ => reads
  obtain ⟨a, next, done, known, reached⟩ := whole (Cursor.ofText text inProblem G) rfl
  refine ⟨a, ?_, known⟩
  have nothing : next.rest = [] := congrArg Place.rest reached
  rw [parseAll]
  simp only [done, nothing]
  rfl

theorem written_checked (file : DomainFile R) (d : Domain R) (writes : Writes file d) (declared : d.Declared) :
    file.Checked ∧ file.domain = d.asRead := by
  obtain ⟨name, requirements, types, constants, predicates, functions, actions⟩ := writes
  rw [declarations_spelled] at types
  have same : hierarchy file.types = d.types := by
    have pairs : (file.types.map Prod.snd).map (fun t => (t.name, t.kind.getD "object")) = d.types.parents :=
      calc (file.types.map Prod.snd).map (fun t => (t.name, t.kind.getD "object"))
        _ = d.types.parents.map id := by rw [types, Hierarchy.declarations, List.map_map]; rfl
        _ = d.types.parents := List.map_id _
    rw [hierarchy_terms, pairs, Hierarchy.of_pairs_distinct _ declared.distinctTypes]
  constructor
  · constructor
    · rw [types, Hierarchy.declarations, List.map_map]
      exact declared.distinctTypes
    · rw [same, types]
      exact declared.types
    · rw [constants, Term.spell_out_names]
      exact declared.distinctConstants
    · rw [same, constants]
      exact Domain.known_spelled _ _ declared.constants
    · rw [predicates, List.map_map]
      exact declared.distinctPredicates
    · intro entry member
      rw [same]
      obtain ⟨a, listed, first, parameters⟩ := forall_two_right _ _ _ actions entry member
      rw [parameters]
      exact Domain.known_spelled _ _ (declared.parameters a listed)
  · have steps : file.actions.map Prod.fst = d.actions.map Action.asRead :=
      forall_two_map Prod.fst Action.asRead _ _ (actions.imp fun _ _ both => both.1)
    rw [DomainFile.domain, Domain.asRead, name, requirements, same, constants, predicates, functions, steps]

end Source

theorem Domain.parse_text {R : Type} [Number R] [Number.ZerosAlike R] {finite : R → Prop} (readable : Source.Readable finite) (d : Domain R)
    (legible : d.Legible (Source.Opens (RequirementSet.closure d.requirements)) finite) (declared : d.Declared) :
    Domain.parse d.text = .ok d.asRead := by
  obtain ⟨file, parsed, writes⟩ := Source.parse_all_reads d.text false _ (Source.domain_file_reads readable d legible)
  obtain ⟨checked, same⟩ := Source.written_checked file d writes declared
  rw [Domain.parse, parsed, ok_bind, Source.DomainFile.check_ok_iff]
  exact ⟨checked, same⟩

end Replan
