/-!
# Actions

An action works on a state and may fail. The state that it leaves behind comes with an error, too:
what has been changed before an action fails stays changed. Whether a failed action has changed
anything is therefore a matter of the order of its steps.
-/

namespace RegisterMachine

/-- From a state to a result or an error, and in either case to the state that is left behind. -/
def Action (σ ε α : Type) : Type :=
  σ → Except ε α × σ

namespace Action

variable {σ τ ε ε' α β : Type}

@[always_inline]
instance : Monad (Action σ ε) where
  pure a := fun s => (.ok a, s)
  bind x f := fun s =>
    match x s with
    | (.ok a, s) => f a s
    | (.error e, s) => (.error e, s)

@[always_inline]
instance : MonadStateOf σ (Action σ ε) where
  get := fun s => (.ok s, s)
  set s := fun _ => (.ok ⟨⟩, s)
  modifyGet f := fun s => (.ok (f s).1, (f s).2)

@[always_inline]
instance : MonadExceptOf ε (Action σ ε) where
  throw e := fun s => (.error e, s)
  tryCatch x handler := fun s =>
    match x s with
    | (.ok a, s) => (.ok a, s)
    | (.error e, s) => handler e s

/-- Reading leaves the state as it is. -/
@[always_inline]
instance : MonadLift (Except ε) (Action σ ε) where
  monadLift x := fun s => (x, s)

/-- Does an action on a part of the state. -/
def onPart (view : σ → τ) (put : τ → σ → σ) (wrap : ε → ε') (x : Action τ ε α) : Action σ ε' α :=
  fun s =>
    let (result, part) := x (view s)
    (result.mapError wrap, put part s)

variable {s : σ}

@[simp] theorem throw_apply (e : ε) : (throw e : Action σ ε α) s = (.error e, s) := rfl

@[simp] theorem set_apply (t : σ) : (set t : Action σ ε PUnit) s = (.ok ⟨⟩, t) := rfl

@[simp] theorem modify_apply (f : σ → σ) : (modify f : Action σ ε PUnit) s = (.ok ⟨⟩, f s) := rfl

@[simp] theorem lift_apply (x : Except ε α) : (liftM x : Action σ ε α) s = (x, s) := rfl

@[simp] theorem get_bind (f : σ → Action σ ε β) : ((get : Action σ ε σ) >>= f) s = f s s := rfl

@[simp] theorem modifyGet_bind (g : σ → α × σ) (f : α → Action σ ε β) :
    ((modifyGet g : Action σ ε α) >>= f) s = f (g s).1 (g s).2 := rfl

@[simp] theorem lift_ok_bind (a : α) (f : α → Action σ ε β) :
    ((liftM (.ok a : Except ε α) : Action σ ε α) >>= f) = f a := rfl

theorem bind_of_ok {x : Action σ ε α} {a : α} {t : σ} (h : x s = (.ok a, t))
    (f : α → Action σ ε β) : (x >>= f) s = f a t := by
  simp only [bind, h]

theorem bind_of_error {x : Action σ ε α} {e : ε} {t : σ} (h : x s = (.error e, t))
    (f : α → Action σ ε β) : (x >>= f) s = (.error e, t) := by
  simp only [bind, h]

end Action

end RegisterMachine
