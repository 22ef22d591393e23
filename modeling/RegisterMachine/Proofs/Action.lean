import RegisterMachine.Machine.Action
import RegisterMachine.Proofs.Result

/-!
# Actions in parts

How an action in several parts succeeds or fails, and with which state. An action is atomic if it
leaves the state as it was where it fails (`Action.IsAtomic`). Parts that only read are no danger to
that; a part that has changed the state is one, if a later part can still fail.
-/

namespace RegisterMachine

variable {σ τ ε ε' α β : Type} {s t : σ} {e : ε}

namespace Action

variable {b : β} {x : Action σ ε α} {f : α → Action σ ε β} {y : Except ε α}

theorem bind_eq_ok_iff : (x >>= f) s = (.ok b, t) ↔
    ∃ a u, x s = (.ok a, u) ∧ f a u = (.ok b, t) := by
  cases hx : x s with
  | mk result u =>
    cases result with
    | ok a =>
      rw [bind_of_ok hx]
      simp
    | error e =>
      rw [bind_of_error hx]
      simp

theorem bind_eq_error_iff : (x >>= f) s = (.error e, t) ↔
    x s = (.error e, t) ∨ ∃ a u, x s = (.ok a, u) ∧ f a u = (.error e, t) := by
  cases hx : x s with
  | mk result u =>
    cases result with
    | ok a =>
      rw [bind_of_ok hx]
      simp
    | error e =>
      rw [bind_of_error hx]
      simp

theorem bind_pure_apply (x : Action σ ε α) (g : α → β) :
    (x >>= fun a => pure (g a)) s = ((x s).1.map g, (x s).2) := by
  cases hx : x s with
  | mk result u =>
    cases result with
    | ok a => exact bind_of_ok hx _
    | error e => exact bind_of_error hx _

theorem lift_bind_eq_ok_iff : ((liftM y : Action σ ε α) >>= f) s = (.ok b, t) ↔
    ∃ a, y = .ok a ∧ f a s = (.ok b, t) := by
  simp [bind_eq_ok_iff]

theorem lift_bind_eq_error_iff : ((liftM y : Action σ ε α) >>= f) s = (.error e, t) ↔
    y = .error e ∧ t = s ∨ ∃ a, y = .ok a ∧ f a s = (.error e, t) := by
  rw [bind_eq_error_iff, lift_apply]
  simp [eq_comm (a := s)]

section OnPart

variable {view : σ → τ} {put : τ → σ → σ} {wrap : ε → ε'} {x : Action τ ε α} {a : α} {e' : ε'}

theorem onPart_eq_ok_iff : onPart view put wrap x s = (.ok a, t) ↔
    ∃ part, x (view s) = (.ok a, part) ∧ put part s = t := by
  unfold onPart
  cases hx : x (view s) with
  | mk result part => cases result <;> simp [Except.mapError]

theorem onPart_eq_error_iff : onPart view put wrap x s = (.error e', t) ↔
    ∃ e part, x (view s) = (.error e, part) ∧ wrap e = e' ∧ put part s = t := by
  unfold onPart
  cases hx : x (view s) with
  | mk result part => cases result <;> simp [Except.mapError]

end OnPart

/-- Where the action fails, it leaves the state as it was. -/
def IsAtomic (x : Action σ ε α) : Prop :=
  ∀ s e t, x s = (.error e, t) → t = s

namespace IsAtomic

theorem throw (e : ε) : IsAtomic (throw e : Action σ ε α) := by
  intro s e' t h
  cases h
  rfl

protected theorem pure (a : α) : IsAtomic (pure a : Action σ ε α) :=
  nofun

theorem modify (g : σ → σ) : IsAtomic (modify g : Action σ ε PUnit) :=
  nofun

theorem get_bind {f : σ → Action σ ε β} (hf : ∀ s, IsAtomic (f s)) :
    IsAtomic ((get : Action σ ε σ) >>= f) :=
  fun s => hf s s

theorem lift_bind (hf : ∀ a, IsAtomic (f a)) : IsAtomic ((liftM y : Action σ ε α) >>= f) := by
  intro s e t h
  rcases lift_bind_eq_error_iff.1 h with ⟨-, rfl⟩ | ⟨a, -, h⟩
  · rfl
  · exact hf a s e t h

/-- What follows a change must not fail. -/
theorem bind_of_total (hx : IsAtomic x) (hf : ∀ a s e t, f a s ≠ (.error e, t)) :
    IsAtomic (x >>= f) := by
  intro s e t h
  rcases bind_eq_error_iff.1 h with h | ⟨a, u, -, h⟩
  · exact hx s e t h
  · exact absurd h (hf a u e t)

theorem bind_pure (hx : IsAtomic x) (g : α → β) : IsAtomic (x >>= fun a => pure (g a)) :=
  hx.bind_of_total nofun

theorem onPart {x : Action τ ε α} (hx : IsAtomic x) {view : σ → τ} {put : τ → σ → σ}
    (hput : ∀ s, put (view s) s = s) (wrap : ε → ε') : IsAtomic (onPart view put wrap x) := by
  intro s e' t h
  obtain ⟨e, part, hfail, -, rfl⟩ := onPart_eq_error_iff.1 h
  rw [hx _ _ _ hfail, hput]

end IsAtomic

end Action

namespace FailsWith

variable {P : ε → Prop} {x : Action σ ε α} {f : α → Action σ ε β} {y : Except ε α}

theorem bind_action (hx : FailsWith P (x s).1) (hf : ∀ a t, FailsWith P (f a t).1) :
    FailsWith P ((x >>= f) s).1 := by
  intro e h
  have hbind : (x >>= f) s = (.error e, _) := Prod.ext h rfl
  rcases Action.bind_eq_error_iff.1 hbind with h | ⟨a, u, -, h⟩
  · exact hx e (congrArg Prod.fst h)
  · exact hf a u e (congrArg Prod.fst h)

theorem lift_bind (hy : FailsWith P y) (hf : ∀ a, FailsWith P (f a s).1) :
    FailsWith P (((liftM y : Action σ ε α) >>= f) s).1 := by
  cases y with
  | ok a =>
    rw [Action.bind_of_ok (Action.lift_apply _)]
    exact hf a
  | error e =>
    rw [Action.bind_of_error (Action.lift_apply _)]
    exact .error (hy e rfl)

end FailsWith

end RegisterMachine
