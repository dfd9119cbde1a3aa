import Replan.Proofs.Source.Chunks

set_option autoImplicit false

namespace Replan

namespace Term

def spelled (anyTyped : Bool) (t : Term) : Term :=
  if anyTyped then { t with kind := some (t.kind.getD "object") } else t

def spellOut (ts : List Term) : List Term := ts.map (spelled (ts.any fun t => t.kind.isSome))

theorem spell_out_names (ts : List Term) : (spellOut ts).map name = ts.map name := by
  rw [spellOut, List.map_map]
  refine List.map_congr_left fun t _ => ?_
  rw [Function.comp_apply, spelled]
  split <;> rfl

theorem runs_flatten (ts : List Term) : ((runs ts).flatMap fun run => run.2.map fun n => ⟨n, run.1⟩) = ts := by
  induction ts with
  | nil => rfl
  | cons t ts ih =>
      rw [runs]
      cases found : runs ts with
      | nil =>
          rw [found] at ih
          simp [← ih]
      | cons run rest =>
          obtain ⟨kind, names⟩ := run
          rw [found] at ih
          by_cases same : kind = t.kind
          · simp only [if_pos same]
            subst same
            rw [List.flatMap_cons] at ih ⊢
            exact congrArg (t :: ·) ih
          · simp only [if_neg same]
            rw [List.flatMap_cons, ih]
            rfl

theorem runs_nonempty (ts : List Term) : ∀ run ∈ runs ts, run.2 ≠ [] := by
  induction ts with
  | nil => simp [runs]
  | cons t ts ih =>
      rw [runs]
      cases found : runs ts with
      | nil => simp
      | cons run rest =>
          rw [found] at ih
          obtain ⟨first, others⟩ := List.forall_mem_cons.mp ih
          obtain ⟨kind, names⟩ := run
          by_cases same : kind = t.kind
          · simp only [if_pos same]
            exact List.forall_mem_cons.mpr ⟨by simp, others⟩
          · simp only [if_neg same]
            exact List.forall_mem_cons.mpr ⟨by simp, ih⟩

theorem runs_untyped (ts : List Term) (untyped : ∀ t ∈ ts, t.kind = none) (nonempty : ts ≠ []) :
    runs ts = [(none, ts.map name)] := by
  induction ts with
  | nil => exact absurd rfl nonempty
  | cons t ts ih =>
      obtain ⟨first, others⟩ := List.forall_mem_cons.mp untyped
      rw [runs]
      cases ts with
      | nil => simp [runs, first]
      | cons u ts => simp [ih others (by simp), first]

end Term

namespace Source

open Replan.Source.Parser

variable {R α : Type} {G : RequirementSet} {T : List Char → Prop}

def Opens (G oneOf : RequirementSet) : Prop := RequirementSet.disjoint G oneOf = false

def IsVariable (n : String) : Prop := ∃ m, IsName m ∧ n = "?" ++ m

def IsTerm (t : Term) : Prop := t.kind = none ∧ (IsName t.name ∨ IsVariable t.name)

theorem name_misses (rest : List Char) (other : ∀ c ∈ rest.head?, isNameStart c = false) :
    Misses (R := R) name ⟨rest, G⟩ :=
  misses_second (cursor_reads _) fun _ _ => misses_bind (named_misses _ (satisfy_misses isNameStart rest other))

theorem variable_to_list (m : String) : ("?" ++ m).toList = '?' :: m.toList := by
  rw [String.toList_append]
  rfl

theorem variable_solid (n : String) (isVariable : IsVariable n) : Solid n.toList := by
  obtain ⟨m, -, rfl⟩ := isVariable
  rw [variable_to_list]
  exact ⟨'?', rfl, by decide, by decide⟩

theorem takes_variable (n : String) (isVariable : IsVariable n) :
    Takes (R := R) Ended G variableName n.toList (fun entry => entry.2 = n) := by
  intro tail ended
  rw [skip_solid _ _ (variable_solid n isVariable)]
  obtain ⟨m, isName, rfl⟩ := isVariable
  rw [variable_to_list, List.cons_append]
  refine reads_bind (cursor_reads _) fun _ _ => ?_
  refine reads_bind (named_reads _ (reads_bind (symbol_reads '?' _) fun _ _ => name_reads m tail isName ended))
    fun entry known => ?_
  exact reads_pure _ _ (by rw [known])

theorem variable_misses (rest : List Char) (other : rest.head? ≠ some '?') :
    Misses (R := R) variableName ⟨rest, G⟩ :=
  misses_second (cursor_reads _) fun _ _ =>
    misses_bind (named_misses _ (misses_bind (symbol_misses '?' rest other)))

theorem takes_term (t : Term) (isTerm : IsTerm t) : Takes (R := R) Ended G term t.name.toList (· = t) := by
  obtain ⟨name, kind⟩ := t
  obtain ⟨untyped, isName | isVariable⟩ := isTerm
  · cases untyped
    intro tail ended
    refine reads_then_pure (Q := (· = Term.untyped name)) (fun entry => Term.untyped entry.2)
      (either_second (variable_misses _ ?_) (takes_name name isName tail ended)) fun entry => congrArg Term.untyped
    rw [skip_solid _ _ (name_solid name isName)]
    obtain ⟨c, first, start⟩ := (Option.any_eq_true _ _).mp isName.1
    rw [List.head?_append, first]
    rintro ⟨⟩
    cases start
  · cases untyped
    intro tail ended
    exact reads_then_pure (Q := (· = Term.untyped name)) (fun entry => Term.untyped entry.2)
      (either_first (takes_variable name isVariable tail ended)) fun entry => congrArg Term.untyped

theorem term_misses (rest : List Char) (other : ∀ c ∈ rest.head?, isNameStart c = false ∧ c ≠ '?') :
    Misses (R := R) term ⟨rest, G⟩ := by
  refine misses_bind (either_misses (variable_misses rest fun first => ?_) (name_misses rest fun c first => ?_))
  · exact (other '?' first).2 rfl
  · exact (other c first).1

def AtomReads (a : Atom) : Prop := IsName a.name ∧ ∀ t ∈ a.args, IsTerm t

theorem term_solid (t : Term) (isTerm : IsTerm t) : Solid t.name.toList := by
  obtain ⟨-, isName | isVariable⟩ := isTerm
  · exact name_solid _ isName
  · exact variable_solid _ isVariable

theorem takes_joined {p : Parser R α} {P : α → Prop} (words : List String) (more : List Char)
    (reads : Takes T G p (words.flatMap (fun w => ' ' :: w.toList) ++ more) P) :
    Takes T G p ((" ".intercalate words).toList ++ more) P := by
  intro tail follows
  have taken := reads tail follows
  rw [List.append_assoc] at taken ⊢
  rwa [joined_skip]

theorem takes_terms (ts : List Term) (terms : ∀ t ∈ ts, IsTerm t) :
    Takes (R := R) Closing G (many term) (ts.flatMap fun t => ' ' :: t.name.toList) (· = ts) := by
  refine takes_weaken (takes_list id (fun tail closing => ?_) closing_ended (fun t member => term_solid t (terms t member))
    fun t member => takes_term t (terms t member)) fun us same => same.trans (List.map_id _)
  rw [closing_skip tail closing]
  refine term_misses tail fun c first => ?_
  rw [closing] at first
  cases first
  decide

theorem takes_atom (a : Atom) (reads : AtomReads a) : Takes (R := R) T G atom a.text.toList (· = a) := by
  have shape : a.text.toList =
      '(' :: (((" ".intercalate (a.name :: a.args.map Term.name)).toList ++ []) ++ [')']) := by
    simp [Atom.text, Ground.text, Atom.ground]
  rw [shape]
  refine takes_parens (takes_joined _ _ ?_)
  rw [List.append_nil, List.flatMap_cons, List.flatMap_map]
  refine takes_bind (takes_space (takes_name a.name reads.1)) (fun tail closing => ?_) fun entry known =>
    takes_then_pure (fun args => Atom.mk entry.2 args) (takes_terms a.args reads.2) fun args same => by rw [known, same]
  exact apart_items (fun t member => item_spaced _ (term_solid t (reads.2 t member))) tail (closing_ended tail closing)

structure Words (p : Parser R (Span × String)) (isWord : String → Prop) : Prop where
  takes : ∀ (G : RequirementSet) (n : String), isWord n →
    Takes Ended G p n.toList (fun entry => entry.2 = n)
  solid : ∀ n, isWord n → Solid n.toList
  stops : ∀ (G : RequirementSet) (rest : List Char), rest.head? = some '-' ∨ rest.head? = some ')' →
    Misses p ⟨rest, G⟩

theorem names_words : Words (R := R) name IsName where
  takes _ n isName := takes_name n isName
  solid n isName := name_solid n isName
  stops _ rest closes := by
    refine name_misses rest fun c first => ?_
    rcases closes with dash | closing
    · rw [dash] at first
      cases first
      decide
    · rw [closing] at first
      cases first
      decide

theorem variables_words : Words (R := R) variableName IsVariable where
  takes _ n isVariable := takes_variable n isVariable
  solid n isVariable := variable_solid n isVariable
  stops _ rest closes := by
    refine variable_misses rest ?_
    rcases closes with dash | closing
    · rw [dash]
      decide
    · rw [closing]
      decide

def Declares (isWord : String → Prop) (licence : RequirementSet → Prop) (ts : List Term) : Prop :=
  ∀ t ∈ ts, isWord t.name ∧ ∀ kind ∈ t.kind, IsName kind ∧ licence [.typing]

variable {p : Parser R (Span × String)} {isWord : String → Prop}

theorem takes_words (words : Words p isWord) (names : List String) (each : ∀ n ∈ names, isWord n)
    (nonempty : names ≠ []) (ended : ∀ tail, T tail → Ended tail)
    (stops : ∀ tail, T tail → (skip tail).head? = some '-' ∨ (skip tail).head? = some ')') :
    Takes T G (many1 p) (names.flatMap fun n => ' ' :: n.toList) (fun entries => entries.map Prod.snd = names) := by
  refine takes_weaken (takes_many_one (S := fun n entry => entry.2 = n)
    (fun tail follows => words.stops G _ (stops tail follows)) ended
    (fun n member => item_spaced _ (words.solid n (each n member)))
    (fun n member => takes_space (words.takes G n (each n member))) nonempty) fun entries found => ?_
  rw [forall_two_map Prod.snd id names entries found, List.map_id]

theorem takes_typed_group (words : Words p isWord) (names : List String) (kind : String)
    (each : ∀ n ∈ names, isWord n) (nonempty : names ≠ []) (isName : IsName kind) (typing : Opens G [.typing]) :
    Takes Ended G (typedGroup p) (names.flatMap (fun n => ' ' :: n.toList) ++ ' ' :: '-' :: ' ' :: kind.toList)
      (fun entries => entries.map Prod.snd = names.map fun n => ⟨n, some kind⟩) := by
  have dashed : Takes Ended G (opt do
      requires [.typing] (sign '-')
      cut (name (R := R))) (' ' :: '-' :: ' ' :: kind.toList) (fun found => found.map Prod.snd = some kind) := by
    intro tail ended
    refine opt_reads (P := fun entry => entry.2 = kind) ?_ fun entry known => congrArg some known
    have sep := skip_solid ('-' :: ' ' :: kind.toList) tail ⟨'-', rfl, by decide, by decide⟩
    rw [List.cons_append, skip_space, sep]
    exact reads_bind (requires_reads _ (sign_reads '-' _) typing) fun _ _ =>
      cut_reads (takes_name kind isName tail ended)
  refine takes_bind (B := fun tail => ∃ rest, tail = ' ' :: '-' :: rest)
    (takes_words words names each nonempty ?_ ?_) (fun tail _ => ⟨_, rfl⟩) fun entries known =>
      takes_then_pure _ dashed fun found same => ?_
  · rintro _ ⟨rest, rfl⟩
    exact ended_spaced _
  · rintro _ ⟨rest, rfl⟩
    exact .inl rfl
  · rw [List.map_map, ← known, List.map_map, same]
    rfl

theorem typed_group_stops (words : Words p isWord) (tail : List Char) (closing : Closing tail) :
    Misses (typedGroup p) ⟨skip tail, G⟩ := by
  rw [closing_skip tail closing]
  exact misses_bind (misses_bind (words.stops G _ (.inr closing)))

theorem takes_run (words : Words p isWord) (run : Option String × List String) (nonempty : run.2 ≠ [])
    (declares : Declares isWord (Opens G) (run.2.map fun n => ⟨n, run.1⟩)) (typing : Opens G [.typing]) :
    Item Ended (' ' :: (Term.runText true run).toList) ∧
      Takes Ended G (typedGroup p) (' ' :: (Term.runText true run).toList)
        (fun entries => entries.map Prod.snd = run.2.map fun n => ⟨n, some (run.1.getD "object")⟩) := by
  have shape : (Term.runText true run).toList =
      (" ".intercalate run.2).toList ++ ' ' :: '-' :: ' ' :: (run.1.getD "object").toList := by
    obtain ⟨_ | kind, names⟩ := run <;> simp [Term.runText]
  have each (n : String) (listed : n ∈ run.2) := declares ⟨n, run.1⟩ (List.mem_map_of_mem listed)
  rw [shape]
  constructor
  · cases names : run.2 with
    | nil => exact absurd names nonempty
    | cons n more =>
        rw [joined_cons]
        refine item_spaced _ (solid_append _ _ (solid_append _ _ (words.solid n ?_)))
        exact (each n (names ▸ List.mem_cons_self)).1
  · refine takes_space (takes_joined run.2 _
      (takes_typed_group words run.2 _ (fun n listed => (each n listed).1) nonempty ?_ typing))
    obtain ⟨n, listed⟩ := List.exists_mem_of_ne_nil _ nonempty
    cases kind : run.1 with
    | none => decide
    | some k => exact ((each n listed).2 k kind).1

theorem takes_typed (words : Words p isWord) (ts : List Term) (declares : Declares isWord (Opens G) ts)
    (typing : Opens G [.typing]) :
    Takes Closing G (typedList p) (" ".intercalate ((Term.runs ts).map (Term.runText true))).toList
      (fun entries => entries.map Prod.snd = ts.map (Term.spelled true)) := by
  have member (run : Option String × List String) (known : run ∈ Term.runs ts) :
      Declares isWord (Opens G) (run.2.map fun n => ⟨n, run.1⟩) := by
    refine fun t listed => declares t ?_
    rw [← Term.runs_flatten ts]
    exact List.mem_flatMap.mpr ⟨run, known, listed⟩
  have runs (run : Option String × List String) (known : run ∈ Term.runs ts) :=
    takes_run words run (Term.runs_nonempty ts run known) (member run known) typing
  have groups := takes_many (T := Closing) (typed_group_stops words) closing_ended
    (fun run known => (runs run known).1) fun run known => (runs run known).2
  rw [← List.append_nil (String.toList _)]
  refine takes_joined _ _ ?_
  rw [List.append_nil, List.flatMap_map]
  refine takes_then_pure _ (takes_named _ groups) fun groups found => ?_
  have each := forall_two_map (List.map Prod.snd)
    (fun run : Option String × List String => run.2.map fun n => Term.spelled true ⟨n, run.1⟩) _ _ found
  rw [List.map_flatten, each, ← List.flatMap_def]
  conv => rhs; rw [← Term.runs_flatten ts]
  rw [List.map_flatMap]
  exact List.flatMap_congr fun run _ => by rw [List.map_map]; rfl

theorem takes_plain_group (words : Words p isWord) (ts : List Term) (each : ∀ t ∈ ts, isWord t.name)
    (untyped : ∀ t ∈ ts, t.kind = none) (nonempty : ts ≠ []) :
    Takes Closing G (typedGroup p) ((ts.map Term.name).flatMap fun n => ' ' :: n.toList)
      (fun entries => entries.map Prod.snd = ts) := by
  intro tail closing
  have names := takes_words (T := Closing) (G := G) words (ts.map Term.name)
    (by simpa using each) (by simpa using nonempty) closing_ended
    (fun tail closing => .inr ((closing_skip tail closing).symm ▸ closing))
  refine reads_bind (names tail closing) fun entries known => ?_
  refine reads_then_pure _ (opt_nothing (Q := (· = none)) (misses_bind (requires_misses _ ?_)) rfl) fun kind none => ?_
  · rw [closing_skip tail closing]
    refine sign_misses '-' tail ?_
    rw [closing]
    decide
  · rw [none, List.map_map]
    calc entries.map (Prod.snd ∘ fun entry => (entry.1, ⟨entry.2, Option.none⟩))
      _ = (entries.map Prod.snd).map Term.untyped := by rw [List.map_map]; rfl
      _ = ts.map fun t => Term.untyped t.name := by rw [known, List.map_map]; rfl
      _ = ts := (List.map_congr_left fun t listed => by rw [Term.untyped, ← untyped t listed]; rfl).trans (List.map_id _)

theorem takes_untyped (words : Words p isWord) (ts : List Term) (each : ∀ t ∈ ts, isWord t.name)
    (untyped : ∀ t ∈ ts, t.kind = none) :
    Takes Closing G (typedList p) (" ".intercalate ((Term.runs ts).map (Term.runText false))).toList
      (fun entries => entries.map Prod.snd = ts) := by
  intro tail closing
  have none := many_stops (typed_group_stops (G := G) words tail closing)
  by_cases nonempty : ts = []
  · subst nonempty
    exact reads_then_pure _ (named_reads _ none) fun groups found => by rw [found]; rfl
  · have text : (" ".intercalate ((Term.runs ts).map (Term.runText false))).toList =
        (" ".intercalate (ts.map Term.name)).toList := by
      rw [Term.runs_untyped ts untyped nonempty]
      simp [Term.runText]
    have names : skip ((" ".intercalate (ts.map Term.name)).toList ++ tail) =
        skip ((ts.map Term.name).flatMap (fun n => ' ' :: n.toList) ++ tail) := joined_skip _ tail
    rw [text, names]
    have whole := many_goes_on (Q := fun groups => groups.flatten.map Prod.snd = ts)
      (takes_plain_group words ts each untyped nonempty tail closing) ?_ none ?_
    · exact reads_then_pure _ (named_reads _ whole) fun groups => id
    · obtain ⟨t, more, rfl⟩ := List.exists_cons_of_ne_nil nonempty
      rw [List.map_cons, List.flatMap_cons, List.append_assoc]
      refine Nat.lt_of_le_of_lt (skip_le tail) (Nat.lt_of_le_of_lt ?_ ((item_spaced _ (words.solid t.name ?_)).grows _))
      · simp
      · exact each t List.mem_cons_self
    · intro entries others known found
      rw [found, List.flatten_cons, List.flatten_nil, List.append_nil, known]

theorem takes_typed_list (words : Words p isWord) (ts : List Term) (declares : Declares isWord (Opens G) ts) :
    Takes Closing G (typedList p) (Term.listText ts).toList
      (fun entries => entries.map Prod.snd = Term.spellOut ts) := by
  rw [Term.listText, Term.spellOut]
  cases typed : ts.any fun t => t.kind.isSome with
  | true =>
      obtain ⟨t, listed, isTyped⟩ := List.any_eq_true.mp typed
      obtain ⟨k, kindOf⟩ := Option.isSome_iff_exists.mp isTyped
      exact takes_typed words ts declares ((declares t listed).2 k kindOf).2
  | false =>
      have untyped (t : Term) (listed : t ∈ ts) : t.kind = none := by
        simpa using List.any_eq_false.mp typed t listed
      refine takes_weaken (takes_untyped words ts (fun t listed => (declares t listed).1) untyped) fun entries known => ?_
      exact known.trans (List.map_id _).symm

end Source

end Replan
