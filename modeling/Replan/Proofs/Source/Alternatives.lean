import Replan.Proofs.Source.Chunks
import Replan.Source.Formula

set_option autoImplicit false

namespace Replan.Source

open Replan.Source.Parser

variable {R α β : Type} {G : RequirementSet} {T : List Char → Prop}

theorem reads_by_depth {within : Nat → Parser R α} {start stop : Place} {P : α → Prop}
    (reads : Reads (within (start.rest.length + 1)) start stop P) :
    Reads (fun c => within (c.rest.length + 1) c) start stop P := by
  intro c same
  have here : c.rest = start.rest := congrArg Place.rest same
  simp only [here]
  exact reads c same

theorem misses_by_depth {within : Nat → Parser R α} {start : Place}
    (misses : Misses (within (start.rest.length + 1)) start) : Misses (fun c => within (c.rest.length + 1) c) start := by
  intro c same
  have here : c.rest = start.rest := congrArg Place.rest same
  simp only [here]
  exact misses c same

theorem takes_by_depth {within : Nat → Parser R α} {text : List Char} {P : α → Prop}
    (takes : ∀ depth, text.length ≤ depth → Takes T G (within depth) text P) (solid : Solid text) :
    Takes T G (fun c => within (c.rest.length + 1) c) text P := by
  intro tail follows
  refine reads_by_depth (takes _ ?_ tail follows)
  simp only [skip_solid _ _ solid, List.length_append]
  omega

theorem takes_either_first {p q : Parser R α} {text : List Char} {P : α → Prop}
    (reads : Takes T G p text P) : Takes T G (either p q) text P :=
  fun tail follows => either_first (reads tail follows)

theorem takes_either_second {p q : Parser R α} {text : List Char} {P : α → Prop}
    (missed : ∀ tail, T tail → Misses p ⟨skip (text ++ tail), G⟩) (reads : Takes T G q text P) :
    Takes T G (either p q) text P :=
  fun tail follows => either_second (missed tail follows) (reads tail follows)

theorem paren_solid (text : List Char) : Solid ('(' :: text) := ⟨'(', rfl, by decide, by decide⟩

variable {k w : String} {body : List Char}

-- Where a text begins with the word `w`, the keyword `k` is not found.
def Evades (R : Type) (G : RequirementSet) (k w : String) : Prop :=
  ∀ rest, Ended rest → Misses (R := R) (keyword k) ⟨skip (w.toList ++ rest), G⟩

def Spaced (body : List Char) : Prop := ∀ rest, Ended (body ++ ')' :: rest)

theorem spaced_nothing : Spaced [] := fun _ => ended_closed _

theorem spaced_more (body : List Char) : Spaced (' ' :: body) := fun _ => ended_spaced _

theorem spaced_items {γ : Type} (items : List γ) (write : γ → List Char) : Spaced (items.flatMap fun x => ' ' :: write x) := by
  cases items with
  | nil => exact spaced_nothing
  | cons x items => exact spaced_more _

theorem evades_word (unbroken : Unbroken k) (word : IsWord w) (other : k ≠ w) : Evades R G k w :=
  fun rest ended => keyword_misses_word k w rest unbroken word other ended

def Avoids (T : List Char → Prop) (G : RequirementSet) (p : Parser R α) (text : List Char) : Prop :=
  ∀ tail, T tail → Misses p ⟨skip (text ++ tail), G⟩

theorem avoids_parens {p : Parser R α} (inner : List Char)
    (missed : ∀ rest, Misses p ⟨skip (inner ++ ')' :: rest), G⟩) :
    Avoids T G (parens p) ('(' :: (inner ++ [')'])) := by
  intro tail _
  rw [skip_solid _ _ (paren_solid _), List.cons_append, List.append_assoc]
  exact parens_misses_inside _ (missed tail)

theorem avoids_word {f : Unit → Parser R α} (evades : Evades R G k w) (spaced : Spaced body) :
    Avoids T G (parens (keyword k >>= f)) ('(' :: ((w.toList ++ body) ++ [')'])) := by
  refine avoids_parens _ fun rest => misses_bind ?_
  rw [List.append_assoc]
  exact evades _ (spaced rest)

theorem avoids_gated {f : Unit → Parser R α} {oneOf : RequirementSet} (evades : Evades R G k w)
    (spaced : Spaced body) :
    Avoids T G (parens (requires oneOf (keyword k) >>= f)) ('(' :: ((w.toList ++ body) ++ [')'])) := by
  refine avoids_parens _ fun rest => misses_bind (requires_misses _ ?_)
  rw [List.append_assoc]
  exact evades _ (spaced rest)

theorem avoids_bind {p : Parser R α} {f : α → Parser R β} {text : List Char} (avoids : Avoids T G p text) :
    Avoids T G (p >>= f) text :=
  fun tail follows => misses_bind (avoids tail follows)

theorem avoids_empty (a : α) (solid : Solid w.toList) (inside : w.toList.head? ≠ some ')') :
    Avoids (R := R) T G (as a emptyParens) ('(' :: ((w.toList ++ body) ++ [')'])) := by
  intro tail _
  rw [skip_solid _ _ (paren_solid _), List.cons_append, List.append_assoc, List.append_assoc]
  refine misses_bind (empty_parens_misses _ ?_)
  obtain ⟨c, first, -⟩ := id solid
  rw [skip_solid _ _ solid, List.head?_append, first]
  rwa [first] at inside

theorem takes_after {p : Parser R Unit} {f : Unit → Parser R α} {P : α → Prop}
    (reads : Takes Ended G p w.toList (fun _ => True)) (spaced : Spaced body)
    (inner : Takes Closing G (f ()) body P) :
    Takes T G (parens (p >>= f)) ('(' :: ((w.toList ++ body) ++ [')'])) P := by
  refine takes_parens (takes_bind reads (fun tail closing => ?_) fun _ _ => inner)
  cases tail with
  | nil => cases closing
  | cons c tail =>
      cases closing
      exact spaced tail

end Replan.Source
