import Replan.Proofs.Source.Words
import Replan.Source.Formula

set_option autoImplicit false

namespace Replan.Source.Parser

variable {R α β : Type} {G : RequirementSet}

def Yields (G : RequirementSet) (p : Parser R α) (P : α → Prop) : Prop :=
  ∀ c a next, c.requirements = G → p c = .done a next → P a ∧ next.requirements = G

variable {p q : Parser R α} {f : α → Parser R β} {P weaker : α → Prop} {Q : β → Prop}

theorem bind_done (c last : Cursor) (b : β) (done : (p >>= f) c = .done b last) :
    ∃ a next, p c = .done a next ∧ f a next = .done b last := by
  replace done : andThen p f c = .done b last := done
  rw [andThen] at done
  cases first : p c with
  | done a next =>
      rw [first] at done
      exact ⟨a, next, rfl, done⟩
  | miss e => rw [first] at done; cases done
  | fail e => rw [first] at done; cases done

theorem done_bind {c next : Cursor} {a : α} (first : p c = .done a next) : (p >>= f) c = f a next := by
  show andThen p f c = f a next
  rw [andThen, first]

theorem pure_done (a b : α) (c next : Cursor) (done : (pure a : Parser R α) c = .done b next) : a = b ∧ c = next := by
  cases done
  exact ⟨rfl, rfl⟩

theorem either_done (c next : Cursor) (a : α) (done : either p q c = .done a next) :
    p c = .done a next ∨ (∃ e, p c = .miss e) ∧ q c = .done a next := by
  rw [either] at done
  cases first : p c with
  | done b later =>
      rw [first] at done
      exact .inl done
  | fail e => rw [first] at done; cases done
  | miss e =>
      rw [first] at done
      cases second : q c with
      | done b later =>
          rw [second] at done
          exact .inr ⟨⟨e, rfl⟩, done⟩
      | miss f => rw [second] at done; cases done
      | fail f => rw [second] at done; cases done

theorem yields_pure (a : α) (known : P a) : Yields (R := R) G (pure a) P := by
  rintro c b next same done
  obtain ⟨rfl, rfl⟩ := pure_done a b c next done
  exact ⟨known, same⟩

theorem yields_bind (first : Yields G p P) (second : ∀ a, P a → Yields G (f a) Q) :
    Yields G (p >>= f) Q := by
  intro c b last same done
  obtain ⟨a, next, one, two⟩ := bind_done c last b done
  obtain ⟨known, kept⟩ := first c a next same one
  exact second a known next b last kept two

theorem yields_then_pure (g : α → β) (yields : Yields G p P) (known : ∀ a, P a → Q (g a)) :
    Yields G (p >>= fun a => pure (g a)) Q :=
  yields_bind yields fun a holds => yields_pure (g a) (known a holds)

theorem yields_weaken (yields : Yields G p P) (weaken : ∀ a, P a → weaker a) : Yields G p weaker := by
  intro c a next same done
  obtain ⟨known, kept⟩ := yields c a next same done
  exact ⟨weaken a known, kept⟩

theorem yields_either (first : Yields G p P) (second : Yields G q P) :
    Yields G (either p q) P := by
  intro c a next same done
  rcases either_done c next a done with here | ⟨-, there⟩
  · exact first c a next same here
  · exact second c a next same there

theorem yields_first_of (others : List (Parser R α)) (first : Yields G p P)
    (each : ∀ q ∈ others, Yields G q P) : Yields G (firstOf p others) P := by
  induction others generalizing p with
  | nil => exact first
  | cons q others ih =>
      exact yields_either first
        (ih (each q List.mem_cons_self) fun r member => each r (List.mem_cons_of_mem q member))

theorem yields_cut (yields : Yields G p P) : Yields G (cut p) P := by
  intro c a next same done
  refine yields c a next same ?_
  rw [cut] at done
  cases reply : p c with
  | done b later => rw [reply] at done; exact done
  | miss e => rw [reply] at done; cases done
  | fail e => rw [reply] at done; cases done

theorem yields_named (kind : ErrorKind R) (yields : Yields G p P) : Yields G (named kind p) P := by
  intro c a next same done
  refine yields c a next same ?_
  rw [named] at done
  cases reply : p c with
  | done b later => rw [reply] at done; exact done
  | miss e => rw [reply] at done; cases done
  | fail e => rw [reply] at done; cases done

theorem yields_opt {Q : Option α → Prop} (yields : Yields G p P) (some : ∀ a, P a → Q (some a))
    (none : Q none) : Yields G (opt p) Q := by
  intro c a next same done
  rw [opt] at done
  cases reply : p c with
  | done b later =>
      rw [reply] at done
      cases done
      obtain ⟨known, kept⟩ := yields c b _ same reply
      exact ⟨some b known, kept⟩
  | miss e =>
      rw [reply] at done
      cases done
      exact ⟨none, same⟩
  | fail e => rw [reply] at done; cases done

theorem yields_requires (oneOf : RequirementSet) (yields : Yields G p P) :
    Yields G (requires oneOf p) (fun a => P a ∧ RequirementSet.disjoint G oneOf = false) := by
  intro c a next same done
  rw [requires] at done
  cases reply : p c with
  | done b later =>
      obtain ⟨known, kept⟩ := yields c b later same reply
      rw [reply] at done
      cases shut : RequirementSet.disjoint c.requirements oneOf with
      | true => simp [shut] at done
      | false =>
          simp only [shut, Bool.false_eq_true, if_false] at done
          cases done
          rw [same] at shut
          exact ⟨⟨known, shut⟩, kept⟩
  | miss e => rw [reply] at done; cases done
  | fail e => rw [reply] at done; cases done

theorem yields_many (yields : Yields G p P) : Yields G (many p) (fun as => ∀ a ∈ as, P a) := by
  intro c
  induction size : c.rest.length using Nat.strongRecOn generalizing c with
  | _ n ih =>
      intro as last same done
      rw [many] at done
      cases reply : p c with
      | miss e =>
          rw [reply] at done
          cases done
          exact ⟨by simp, same⟩
      | fail e => rw [reply] at done; cases done
      | done a next =>
          obtain ⟨known, kept⟩ := yields c a next same reply
          rw [reply] at done
          by_cases shorter : next.rest.length < c.rest.length
          · simp only [if_pos shorter] at done
            cases others : many p next with
            | done more final =>
                rw [others] at done
                cases done
                obtain ⟨each, held⟩ := ih _ (size ▸ shorter) next rfl more _ kept others
                exact ⟨List.forall_mem_cons.mpr ⟨known, each⟩, held⟩
            | miss e => rw [others] at done; cases done
            | fail e => rw [others] at done; cases done
          · simp only [if_neg shorter] at done
            cases done

theorem yields_many_one (yields : Yields G p P) :
    Yields G (many1 p) (fun as => as ≠ [] ∧ ∀ a ∈ as, P a) :=
  yields_bind yields fun _ first => yields_then_pure _ (yields_many yields) fun _ rest =>
    ⟨List.cons_ne_nil _ _, List.forall_mem_cons.mpr ⟨first, rest⟩⟩

theorem yields_cursor : Yields (R := R) G cursor (fun _ => True) := by
  intro c a next same done
  cases done
  exact ⟨trivial, same⟩

theorem yields_satisfy (accepts : Char → Bool) : Yields (R := R) G (satisfy accepts) (fun c => accepts c = true) := by
  intro c a next same done
  rw [satisfy] at done
  split at done
  · cases done
  · split at done
    · cases done
      exact ⟨‹_›, same⟩
    · cases done

theorem yields_symbol (ch : Char) : Yields (R := R) G (symbol ch) (fun _ => True) :=
  yields_then_pure _ (yields_satisfy _) fun _ _ => trivial

theorem yields_take_while (accepts : Char → Bool) : Yields (R := R) G (takeWhile accepts) (fun _ => True) := by
  intro c a next same done
  cases done
  exact ⟨trivial, same⟩

theorem yields_not_followed (accepts : Char → Bool) : Yields (R := R) G (notFollowedBy accepts) (fun _ => True) := by
  intro c a next same done
  rw [notFollowedBy] at done
  split at done
  · cases done
    exact ⟨trivial, same⟩
  · split at done
    · cases done
    · cases done
      exact ⟨trivial, same⟩

theorem yields_word (w : String) : Yields (R := R) G (word w) (fun _ => True) := by
  intro c a next same done
  rw [word] at done
  split at done
  · cases done
  · cases done
    exact ⟨trivial, same⟩

theorem yields_blanks : Yields (R := R) G blanks (fun _ => True) := by
  intro c a next same done
  cases done
  exact ⟨trivial, same⟩

theorem yields_sign (ch : Char) : Yields (R := R) G (sign ch) (fun _ => True) :=
  yields_bind (yields_symbol ch) fun _ _ => yields_blanks

theorem yields_keyword (w : String) : Yields (R := R) G (keyword w) (fun _ => True) :=
  yields_named _ (yields_bind (yields_word w) fun _ _ => yields_bind (yields_not_followed _) fun _ _ => yields_blanks)

theorem yields_parens (yields : Yields G p P) : Yields G (parens p) P :=
  yields_bind yields_cursor fun _ _ => yields_bind (yields_named _ (yields_sign '(')) fun _ _ =>
    yields_bind yields fun a known => yields_bind (yields_cut (yields_named _ (yields_sign ')'))) fun _ _ =>
      yields_pure a known

theorem yields_as (a : α) {w : Parser R Unit} (yields : Yields G w (fun _ => True)) (known : P a) :
    Yields G (as a w) P :=
  yields_then_pure _ yields fun _ _ => known

theorem yields_empty_parens : Yields (R := R) G emptyParens (fun _ => True) :=
  yields_bind (yields_sign '(') fun _ _ => yields_sign ')'

theorem reads_done {stop : Place} (c next : Cursor) (a : α) (reads : Reads p c.place stop P)
    (done : p c = .done a next) : P a ∧ next.place = stop := by
  obtain ⟨b, later, found, known, reached⟩ := reads c rfl
  rw [done] at found
  cases found
  exact ⟨known, reached⟩

theorem reads_not_miss {stop : Place} (c : Cursor) (e : Diagnostic R) (reads : Reads p c.place stop P) :
    p c ≠ .miss e := by
  intro missed
  obtain ⟨b, later, found, -⟩ := reads c rfl
  rw [missed] at found
  cases found

theorem misses_not_done (c next : Cursor) (a : α) (misses : Misses p c.place) : p c ≠ .done a next := by
  intro done
  obtain ⟨e, missed⟩ := misses c rfl
  rw [done] at missed
  cases missed

def Sure (p : Parser R α) : Prop := ∀ c e, p c ≠ .miss e

theorem sure_cut : Sure (cut p) := by
  intro c e missed
  rw [cut] at missed
  split at missed <;> simp_all

theorem sure_pure (a : α) : Sure (R := R) (pure a) := by
  intro c e missed
  cases missed

theorem sure_bind (first : Sure p) (second : ∀ a, Sure (f a)) : Sure (p >>= f) := by
  intro c e missed
  replace missed : andThen p f c = .miss e := missed
  rw [andThen] at missed
  cases reply : p c with
  | done a next => rw [reply] at missed; exact second a next e missed
  | miss e => exact first c e reply
  | fail e => rw [reply] at missed; cases missed

theorem bind_missed (c : Cursor) (e : Diagnostic R) (missed : (p >>= f) c = .miss e) :
    (∃ e, p c = .miss e) ∨ ∃ a next, p c = .done a next ∧ f a next = .miss e := by
  replace missed : andThen p f c = .miss e := missed
  rw [andThen] at missed
  cases reply : p c with
  | done a next => rw [reply] at missed; exact .inr ⟨a, next, rfl, missed⟩
  | miss e => exact .inl ⟨e, rfl⟩
  | fail e => rw [reply] at missed; cases missed

theorem sure_bind_missed (c : Cursor) (e : Diagnostic R) (sure : ∀ a, Sure (f a)) (missed : (p >>= f) c = .miss e) :
    ∃ e, p c = .miss e := by
  rcases bind_missed c e missed with first | ⟨a, next, -, second⟩
  · exact first
  · exact absurd second (sure a next e)

def Finds (p : Parser R α) (start : Place) : Prop := ∀ c : Cursor, c.place = start → ∀ e, p c ≠ .miss e

theorem finds_reads {start stop : Place} (reads : Reads p start stop P) : Finds p start := by
  rintro c rfl e
  exact reads_not_miss c e reads

theorem finds_sure {start : Place} (finds : Finds p start) (sure : ∀ a, Sure (f a)) : Finds (p >>= f) start := by
  intro c same e missed
  obtain ⟨e, missed⟩ := sure_bind_missed c e sure missed
  exact finds c same e missed

theorem finds_after {start middle : Place} (reads : Reads p start middle P)
    (finds : ∀ a, P a → Finds (f a) middle) : Finds (p >>= f) start := by
  rintro c rfl e missed
  rcases bind_missed c e missed with ⟨e, missed⟩ | ⟨a, next, done, missed⟩
  · exact reads_not_miss c e reads missed
  · obtain ⟨known, reached⟩ := reads_done c next a reads done
    exact finds a known next reached e missed

theorem finds_either {start : Place} (finds : Finds p start) : Finds (either p q) start := by
  intro c same e missed
  rw [either] at missed
  cases reply : p c with
  | done a next => rw [reply] at missed; cases missed
  | miss e => exact finds c same e reply
  | fail e => rw [reply] at missed; cases missed

theorem finds_named {start : Place} (kind : ErrorKind R) (finds : Finds p start) : Finds (named kind p) start := by
  intro c same e missed
  rw [named] at missed
  cases reply : p c with
  | done a next => rw [reply] at missed; cases missed
  | miss e => exact finds c same e reply
  | fail e => rw [reply] at missed; cases missed

theorem sure_opt : Sure (opt p) := by
  intro c e missed
  rw [opt] at missed
  split at missed <;> cases missed

theorem sure_take_while (accepts : Char → Bool) : Sure (R := R) (takeWhile accepts) := by
  intro c e missed
  cases missed

theorem sure_blanks : Sure (R := R) blanks := by
  intro c e missed
  cases missed

theorem requires_missed (oneOf : RequirementSet) (c : Cursor) (e : Diagnostic R) (missed : requires oneOf p c = .miss e) :
    p c = .miss e := by
  rw [requires] at missed
  cases reply : p c with
  | done a next =>
      rw [reply] at missed
      simp only at missed
      split at missed <;> cases missed
  | miss e => rw [reply] at missed; exact missed
  | fail e => rw [reply] at missed; cases missed

theorem parens_missed (c inside : Cursor) (e : Diagnostic R) (opened : (sign '(' : Parser R Unit) c = .done () inside)
    (missed : parens p c = .miss e) : ∃ e, p inside = .miss e := by
  rcases bind_missed c e missed with ⟨e, nothing⟩ | ⟨start, here, found, missed⟩
  · cases nothing
  · cases found
    rcases bind_missed c e missed with ⟨e, nothing⟩ | ⟨u, next, found, missed⟩
    · rw [named, opened] at nothing
      cases nothing
    · rw [named, opened] at found
      cases found
      exact sure_bind_missed inside e (fun a => sure_bind sure_cut fun _ => sure_pure a) missed

theorem parens_done (c next : Cursor) (a : α) (done : parens p c = .done a next) :
    ∃ inside later, (sign '(' : Parser R Unit) c = .done () inside ∧ p inside = .done a later := by
  obtain ⟨start, here, found, done⟩ := bind_done c next a done
  cases found
  obtain ⟨u, inside, opened, done⟩ := bind_done c next a done
  obtain ⟨b, later, inner, done⟩ := bind_done inside next a done
  obtain ⟨v, closed, -, done⟩ := bind_done later next a done
  obtain ⟨rfl, -⟩ := pure_done b a closed next done
  refine ⟨inside, later, ?_, inner⟩
  rw [named] at opened
  cases reply : (sign '(' : Parser R Unit) c with
  | done v after => rw [reply] at opened; cases opened; rfl
  | miss e => rw [reply] at opened; cases opened
  | fail e => rw [reply] at opened; cases opened

theorem first_of_missed (others : List (Parser R α)) (c : Cursor) (e : Diagnostic R)
    (missed : firstOf p others c = .miss e) : ∀ q ∈ p :: others, ∃ e, q c = .miss e := by
  induction others generalizing p e with
  | nil =>
      intro q member
      rw [List.mem_singleton.mp member]
      exact ⟨e, missed⟩
  | cons q others ih =>
      replace missed : either p (firstOf q others) c = .miss e := missed
      rw [either] at missed
      cases first : p c with
      | done a next => rw [first] at missed; cases missed
      | fail f => rw [first] at missed; cases missed
      | miss f =>
          rw [first] at missed
          cases second : firstOf q others c with
          | done a next => rw [second] at missed; cases missed
          | fail g => rw [second] at missed; cases missed
          | miss g => exact List.forall_mem_cons.mpr ⟨⟨f, first⟩, ih g second⟩

end Replan.Source.Parser
