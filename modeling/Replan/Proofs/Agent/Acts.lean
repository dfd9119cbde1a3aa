import Replan.Agent.Hindsight
import Replan.Agent.Simple

set_option autoImplicit false

namespace Replan

namespace Act

variable {R α β γ : Type}

def Ends (act : Act R α β) (memory : α) (good : β → α → Prop) (bad : Error R → α → Prop) : Prop :=
  match act memory with
  | (.ok b, left) => good b left
  | (.error e, left) => bad e left

section Rules

variable (memory : α) (good : γ → α → Prop) (bad : Error R → α → Prop)

theorem ends_pure (c : γ) : Ends (pure c) memory good bad ↔ good c memory := Iff.rfl

theorem ends_bind (act : Act R α β) (next : β → Act R α γ) :
    Ends (act >>= next) memory good bad ↔ Ends act memory (fun b left => Ends (next b) left good bad) bad := by
  have chained : (act >>= next) memory = match act memory with
      | (.ok b, left) => next b left
      | (.error e, left) => (.error e, left) := by
    simp only [bind, ExceptT.bind, ExceptT.mk, StateT.bind]
    rcases act memory with ⟨_ | _, left⟩ <;> rfl
  rw [Ends, Ends, chained]
  rcases act memory with ⟨_ | _, left⟩ <;> rfl

theorem ends_lift (x : Except (Error R) γ) :
    Ends (liftM x : Act R α γ) memory good bad ↔
      (∀ c, x = .ok c → good c memory) ∧ ∀ e, x = .error e → bad e memory := by
  cases x with
  | ok c => exact ⟨fun holds => ⟨by rintro _ ⟨⟩; exact holds, by rintro _ ⟨⟩⟩, fun both => both.1 c rfl⟩
  | error e => exact ⟨fun holds => ⟨by rintro _ ⟨⟩, by rintro _ ⟨⟩; exact holds⟩, fun both => both.2 e rfl⟩

theorem ends_ok (c : γ) : Ends (liftM (Except.ok c : Except (Error R) γ) : Act R α γ) memory good bad ↔ good c memory :=
  Iff.rfl

theorem ends_error (e : Error R) :
    Ends (liftM (Except.error e : Except (Error R) γ) : Act R α γ) memory good bad ↔ bad e memory := Iff.rfl

end Rules

section Memory

variable (memory : α) (bad : Error R → α → Prop)

theorem ends_get (good : α → α → Prop) : Ends (get : Act R α α) memory good bad ↔ good memory memory := Iff.rfl

theorem ends_set (left : α) (good : PUnit → α → Prop) :
    Ends (set left : Act R α PUnit) memory good bad ↔ good ⟨⟩ left := Iff.rfl

theorem ends_modify (f : α → α) (good : PUnit → α → Prop) :
    Ends (modify f : Act R α PUnit) memory good bad ↔ good ⟨⟩ (f memory) := Iff.rfl

end Memory

theorem ends_imp (act : Act R α β) (memory : α) {good good' : β → α → Prop} {bad bad' : Error R → α → Prop}
    (ends : Ends act memory good bad) (better : ∀ b left, good b left → good' b left)
    (worse : ∀ e left, bad e left → bad' e left) : Ends act memory good' bad' := by
  unfold Ends at ends ⊢
  split
  · next b left acted =>
      rw [acted] at ends
      exact better b left ends
  · next e left acted =>
      rw [acted] at ends
      exact worse e left ends

theorem ends_then (act : Act R α β) (next : β → Act R α γ) (memory : α) {known : β → α → Prop} {good : γ → α → Prop}
    {bad : Error R → α → Prop} (first : Ends act memory known bad)
    (rest : ∀ b left, known b left → Ends (next b) left good bad) : Ends (act >>= next) memory good bad :=
  (ends_bind memory good bad act next).mpr (ends_imp act memory first rest fun _ _ => id)

theorem ends_after (act : Act R α β) (next : β → Act R α γ) (memory left : α) (b : β) (acted : act memory = (.ok b, left))
    (good : γ → α → Prop) (bad : Error R → α → Prop) :
    Ends (act >>= next) memory good bad ↔ Ends (next b) left good bad := by
  rw [ends_bind, Ends, acted]

theorem ends_if_ok (act : Act R α β) (memory left : α) (good : β → α → Prop) (ends : Ends act memory good fun _ _ => True)
    (b : β) (acted : act memory = (.ok b, left)) : good b left := by
  rwa [Ends, acted] at ends

theorem ends_ok_iff (act : Act R α β) (memory : α) (good : β → α → Prop) :
    Ends act memory good (fun _ _ => False) ↔ ∃ b left, act memory = (.ok b, left) ∧ good b left := by
  unfold Ends
  rcases act memory with ⟨e | b, left⟩
  · refine iff_of_false id ?_
    rintro ⟨_, _, ⟨⟩, _⟩
  · refine ⟨fun holds => ⟨b, left, rfl, holds⟩, ?_⟩
    rintro ⟨_, _, ⟨⟩, holds⟩
    exact holds

theorem ends_error_iff (act : Act R α β) (memory : α) (bad : Error R → α → Prop) :
    Ends act memory (fun _ _ => False) bad ↔ ∃ e left, act memory = (.error e, left) ∧ bad e left := by
  unfold Ends
  rcases act memory with ⟨e | b, left⟩
  · refine ⟨fun holds => ⟨e, left, rfl, holds⟩, ?_⟩
    rintro ⟨_, _, ⟨⟩, holds⟩
    exact holds
  · refine iff_of_false id ?_
    rintro ⟨_, _, ⟨⟩, _⟩

def Leaves (act : Act R α β) (memory : α) (holds : α → Prop) : Prop :=
  Ends act memory (fun _ left => holds left) (fun _ left => holds left)

theorem leaves_bind (act : Act R α β) (next : β → Act R α γ) (memory : α) (holds : α → Prop)
    (first : Leaves act memory holds) (rest : ∀ b left, holds left → Leaves (next b) left holds) :
    Leaves (act >>= next) memory holds :=
  ends_then act next memory first rest

theorem leaves_holds (act : Act R α β) (memory : α) (holds : α → Prop) (leaves : Leaves act memory holds) :
    holds (act memory).2 := by
  unfold Leaves Ends at leaves
  split at leaves
  · next acted => rwa [acted]
  · next acted => rwa [acted]

end Act

end Replan
