import Replan.Proofs.Source.Words

set_option autoImplicit false

namespace Replan.Source

open Replan.Source.Parser

variable {R α β γ : Type} {G : RequirementSet} {T B : List Char → Prop}

def Takes (T : List Char → Prop) (G : RequirementSet) (p : Parser R α) (text : List Char)
    (P : α → Prop) : Prop :=
  ∀ tail, T tail → Reads p ⟨skip (text ++ tail), G⟩ ⟨skip tail, G⟩ P

variable {p : Parser R α} {f : α → Parser R β} {text more : List Char} {P : α → Prop} {Q : β → Prop}

theorem takes_bind (first : Takes B G p text P) (between : ∀ tail, T tail → B (more ++ tail))
    (second : ∀ a, P a → Takes T G (f a) more Q) :
    Takes T G (p >>= f) (text ++ more) Q := by
  intro tail follows
  rw [List.append_assoc]
  exact reads_bind (first _ (between tail follows)) fun a known => second a known tail follows

theorem takes_then_pure (g : α → β) (reads : Takes T G p text P) (known : ∀ a, P a → Q (g a)) :
    Takes T G (p >>= fun a => pure (g a)) text Q :=
  fun tail follows => reads_then_pure g (reads tail follows) known

theorem takes_weaken {weaker : α → Prop} (reads : Takes T G p text P)
    (weaken : ∀ a, P a → weaker a) : Takes T G p text weaker :=
  fun tail follows => reads_weaken (reads tail follows) weaken

theorem takes_fewer {fewer : List Char → Prop} (reads : Takes T G p text P)
    (less : ∀ tail, fewer tail → T tail) : Takes fewer G p text P :=
  fun tail follows => reads tail (less tail follows)

theorem takes_space (reads : Takes T G p text P) : Takes T G p (' ' :: text) P :=
  reads

theorem takes_named (kind : ErrorKind R) (reads : Takes T G p text P) :
    Takes T G (named kind p) text P :=
  fun tail follows => named_reads kind (reads tail follows)

theorem takes_cut (reads : Takes T G p text P) : Takes T G (cut p) text P :=
  fun tail follows => cut_reads (reads tail follows)

theorem takes_requires (oneOf : RequirementSet) (reads : Takes T G p text P)
    (given : RequirementSet.disjoint G oneOf = false) : Takes T G (requires oneOf p) text P :=
  fun tail follows => requires_reads oneOf (reads tail follows) given

theorem takes_keyword (w : String) (lower : Lower w.toList) (solid : Solid w.toList) :
    Takes (R := R) Ended G (keyword w) w.toList (fun _ => True) := by
  intro tail ended
  rw [skip_solid _ _ solid]
  exact keyword_reads w tail lower ended

theorem name_solid (n : String) (isName : IsName n) : Solid n.toList := by
  obtain ⟨c, first, start⟩ := (Option.any_eq_true _ _).mp isName.1
  exact solid_unless (fun c => !isNameStart c) c _ first (by simp [start]) (by decide)

theorem name_is_word (n : String) (isName : IsName n) : IsWord n where
  lower c member := (isName.2 c member).2
  letters c member := (isName.2 c (List.mem_of_mem_tail member)).1
  solid := name_solid n isName
  inside closing := by
    rw [IsName, closing] at isName
    exact absurd isName.1 (by decide)

theorem takes_name (n : String) (isName : IsName n) :
    Takes (R := R) Ended G name n.toList (fun entry => entry.2 = n) := by
  intro tail ended
  rw [skip_solid]
  · exact name_reads n tail isName ended
  · exact name_solid n isName

theorem reads_parens {inside : List Char} (tail : List Char) {later : RequirementSet}
    (reads : Reads p ⟨skip inside, G⟩ ⟨')' :: tail, later⟩ P) :
    Reads (parens p) ⟨'(' :: inside, G⟩ ⟨skip tail, later⟩ P := by
  refine reads_bind (cursor_reads _) fun _ _ => reads_bind (named_reads _ (sign_reads '(' inside)) fun _ _ => ?_
  refine reads_bind reads fun a known => ?_
  exact reads_bind (cut_reads (named_reads _ (sign_reads ')' tail))) fun _ _ => reads_pure a _ known

theorem takes_parens (reads : Takes Closing G p text P) :
    Takes T G (parens p) ('(' :: (text ++ [')'])) P := by
  intro tail _
  rw [skip_solid _ _ ⟨'(', rfl, by decide, by decide⟩, List.cons_append, List.append_assoc]
  exact reads_parens tail (reads (')' :: tail) rfl)

theorem parens_misses (rest : List Char) (other : rest.head? ≠ some '(') : Misses (parens p) ⟨rest, G⟩ :=
  misses_second (cursor_reads _) fun _ _ => misses_bind (named_misses _ (sign_misses '(' rest other))

theorem parens_misses_inside (rest : List Char) (missed : Misses p ⟨skip rest, G⟩) :
    Misses (parens p) ⟨'(' :: rest, G⟩ :=
  misses_second (cursor_reads _) fun _ _ =>
    misses_second (named_reads _ (sign_reads '(' rest)) fun _ _ => misses_bind missed

theorem empty_parens_misses (rest : List Char) (other : (skip rest).head? ≠ some ')') :
    Misses (R := R) emptyParens ⟨'(' :: rest, G⟩ :=
  misses_second (sign_reads '(' rest) fun _ _ => sign_misses ')' (skip rest) other

structure Item (B : List Char → Prop) (text : List Char) : Prop where
  apart : ∀ rest, B (text ++ rest)
  grows : ∀ rest, rest.length < (skip (text ++ rest)).length

theorem spaced_grows (text : List Char) (solid : Solid text) (rest : List Char) :
    rest.length < (skip (' ' :: text ++ rest)).length := by
  rw [List.cons_append, skip_space, skip_solid text rest solid, List.length_append]
  obtain ⟨c, first, -⟩ := solid
  cases text with
  | nil => cases first
  | cons d text => exact Nat.lt_add_of_pos_left (Nat.succ_pos _)

theorem item_spaced (text : List Char) (solid : Solid text) : Item Ended (' ' :: text) where
  apart _ := ended_spaced _
  grows := spaced_grows text solid

variable {items : List γ} {write : γ → List Char} {S : γ → α → Prop}

theorem apart_items (each : ∀ x ∈ items, Item B (write x)) (tail : List Char) (follows : B tail) :
    B (items.flatMap write ++ tail) := by
  cases items with
  | nil => exact follows
  | cons x items =>
      rw [List.flatMap_cons, List.append_assoc]
      exact (each x List.mem_cons_self).apart _

theorem takes_many (stops : ∀ tail, T tail → Misses p ⟨skip tail, G⟩)
    (apart : ∀ tail, T tail → B tail) (each : ∀ x ∈ items, Item B (write x))
    (reads : ∀ x ∈ items, Takes B G p (write x) (S x)) :
    Takes T G (many p) (items.flatMap write) (List.Forall₂ S items) := by
  intro tail follows
  induction items with
  | nil =>
      refine reads_weaken (many_stops (stops tail follows)) fun as none => ?_
      rw [none]
      exact .nil
  | cons x items ih =>
      have others := fun y member => each y (List.mem_cons_of_mem x member)
      have rest := apart_items others tail (apart tail follows)
      rw [List.flatMap_cons, List.append_assoc]
      refine many_goes_on (reads x List.mem_cons_self _ rest) ?_
        (ih others fun y member => reads y (List.mem_cons_of_mem x member)) fun a as first more => .cons first more
      exact Nat.lt_of_le_of_lt (skip_le _) ((each x List.mem_cons_self).grows _)

theorem takes_many_one (stops : ∀ tail, T tail → Misses p ⟨skip tail, G⟩)
    (apart : ∀ tail, T tail → B tail) (each : ∀ x ∈ items, Item B (write x))
    (reads : ∀ x ∈ items, Takes B G p (write x) (S x)) (nonempty : items ≠ []) :
    Takes T G (many1 p) (items.flatMap write) (List.Forall₂ S items) := by
  intro tail follows
  cases items with
  | nil => exact absurd rfl nonempty
  | cons x items =>
      have others := fun y member => each y (List.mem_cons_of_mem x member)
      have rest := apart_items others tail (apart tail follows)
      rw [List.flatMap_cons, List.append_assoc]
      exact many_one_reads (reads x List.mem_cons_self _ rest)
        (takes_many stops apart others (fun y member => reads y (List.mem_cons_of_mem x member)) tail follows)
        fun a as first more => .cons first more

theorem forall_two_map (g : α → β) (h : γ → β) (xs : List γ) (as : List α)
    (each : List.Forall₂ (fun x a => g a = h x) xs as) : as.map g = xs.map h := by
  induction each with
  | nil => rfl
  | cons first _ ih => rw [List.map_cons, List.map_cons, first, ih]

theorem takes_list (h : γ → α) (stops : ∀ tail, T tail → Misses p ⟨skip tail, G⟩)
    (ended : ∀ tail, T tail → Ended tail) (solid : ∀ x ∈ items, Solid (write x))
    (reads : ∀ x ∈ items, Takes Ended G p (write x) (· = h x)) :
    Takes T G (many p) (items.flatMap fun x => ' ' :: write x) (· = items.map h) := by
  refine takes_weaken (takes_many (S := fun x a => id a = h x) stops ended
    (fun x member => item_spaced _ (solid x member)) fun x member => takes_space (reads x member)) fun as each => ?_
  rw [← forall_two_map id h items as each, List.map_id]

theorem closing_skip (tail : List Char) (closing : Closing tail) : skip tail = tail := by
  have same := skip_solid tail [] ⟨')', closing, by decide, by decide⟩
  rwa [List.append_nil] at same

theorem solid_append (text more : List Char) (solid : Solid text) : Solid (text ++ more) := by
  obtain ⟨c, first, plain⟩ := solid
  exact ⟨c, by rw [List.head?_append, first]; rfl, plain⟩

theorem joined_cons (w : String) (ws : List String) :
    (" ".intercalate (w :: ws)).toList = w.toList ++ ws.flatMap fun w => ' ' :: w.toList := by
  induction ws generalizing w with
  | nil => simp
  | cons v ws ih =>
      rw [String.intercalate_cons_cons, String.toList_append, String.toList_append, ih]
      simp

theorem joined_skip (words : List String) (rest : List Char) :
    skip ((" ".intercalate words).toList ++ rest) = skip (words.flatMap (fun w => ' ' :: w.toList) ++ rest) := by
  cases words with
  | nil => rfl
  | cons w ws => rw [joined_cons, List.flatMap_cons, List.cons_append, List.cons_append, skip_space]

end Replan.Source
