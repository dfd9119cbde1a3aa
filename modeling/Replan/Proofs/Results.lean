import Mathlib.Data.List.Forall2

set_option autoImplicit false

namespace Replan.Results

variable {ε α β : Type}

theorem ok_bind (a : α) (f : α → Except ε β) : (Except.ok a >>= f) = f a := rfl

theorem error_bind (e : ε) (f : α → Except ε β) : (Except.error e >>= f) = Except.error e := rfl

theorem bind_ok_iff (x : Except ε α) (f : α → Except ε β) (b : β) :
    x >>= f = .ok b ↔ ∃ a, x = .ok a ∧ f a = .ok b := by
  cases x with
  | error e => simp [error_bind]
  | ok a => simp [ok_bind]

theorem map_ok_iff (x : Except ε α) (f : α → β) (b : β) :
    x.map f = .ok b ↔ ∃ a, x = .ok a ∧ f a = b := by
  cases x <;> simp [Except.map]

theorem map_succeeds_iff (x : Except ε α) (f : α → β) : (∃ b, x.map f = .ok b) ↔ ∃ a, x = .ok a := by
  cases x <;> simp [Except.map]

theorem is_ok_iff (x : Except ε α) : x.isOk = true ↔ ∃ a, x = .ok a := by
  cases x <;> simp [Except.isOk, Except.toBool]

theorem to_option_iff (x : Except ε α) (a : α) : x.toOption = some a ↔ x = .ok a := by
  cases x <;> simp [Except.toOption]

def refusal? : Except ε α → Option ε
  | .ok _ => none
  | .error e => some e

theorem refusal_iff (x : Except ε α) (e : ε) : refusal? x = some e ↔ x = .error e := by
  cases x <;> simp [refusal?]

theorem pure_ok_iff (a b : α) : (pure a : Except ε α) = .ok b ↔ a = b := by
  simp [pure, Except.pure]

theorem map_m_ok_iff (f : α → Except ε β) (xs : List α) (ys : List β) :
    xs.mapM f = .ok ys ↔ List.Forall₂ (fun x y => f x = .ok y) xs ys := by
  induction xs generalizing ys with
  | nil =>
      rw [List.mapM_nil, pure_ok_iff, List.forall₂_nil_left_iff]
      exact eq_comm
  | cons x xs ih =>
      simp only [List.mapM_cons, bind_ok_iff, pure_ok_iff, ih]
      constructor
      · intro found
        obtain ⟨y, first, rest, others, rfl⟩ := found
        exact .cons first others
      · intro all
        cases all with
        | cons first others => exact ⟨_, first, _, others, rfl⟩

theorem forall_two_left (r : α → β → Prop) (xs : List α) (ys : List β) (each : List.Forall₂ r xs ys) (x : α)
    (member : x ∈ xs) : ∃ y ∈ ys, r x y := by
  induction each with
  | nil => cases member
  | cons first _ ih =>
      rcases List.mem_cons.mp member with rfl | later
      · exact ⟨_, List.mem_cons_self, first⟩
      · obtain ⟨y, known, related⟩ := ih later
        exact ⟨y, List.mem_cons_of_mem _ known, related⟩

theorem forall_two_right (r : α → β → Prop) (xs : List α) (ys : List β) (each : List.Forall₂ r xs ys)
    (y : β) (member : y ∈ ys) : ∃ x ∈ xs, r x y :=
  forall_two_left (fun y x => r x y) ys xs each.flip y member

theorem map_m_succeeds_iff (f : α → Except ε β) (xs : List α) :
    (∃ ys, xs.mapM f = .ok ys) ↔ ∀ x ∈ xs, ∃ y, f x = .ok y := by
  simp only [map_m_ok_iff]
  constructor
  · rintro ⟨ys, each⟩ x member
    obtain ⟨y, -, found⟩ := forall_two_left _ _ _ each x member
    exact ⟨y, found⟩
  · intro each
    induction xs with
    | nil => exact ⟨[], .nil⟩
    | cons x xs ih =>
        obtain ⟨⟨y, found⟩, others⟩ := List.forall_mem_cons.mp each
        obtain ⟨ys, rest⟩ := ih others
        exact ⟨y :: ys, .cons found rest⟩

def Fails (bad : ε → Prop) : Except ε α → Prop
  | .ok _ => True
  | .error e => bad e

theorem fails_weaken {bad worse : ε → Prop} (x : Except ε α) (fails : Fails bad x) (weaken : ∀ e, bad e → worse e) :
    Fails worse x := by
  cases x with
  | ok _ => trivial
  | error e => exact weaken e fails

theorem fails_bind {bad : ε → Prop} (x : Except ε α) (f : α → Except ε β) (first : Fails bad x)
    (rest : ∀ a, Fails bad (f a)) : Fails bad (x >>= f) := by
  cases x with
  | error e => exact first
  | ok a => exact rest a

theorem fails_map {bad : ε → Prop} (x : Except ε α) (f : α → β) : Fails bad (x.map f) ↔ Fails bad x := by
  cases x <;> rfl

end Replan.Results
