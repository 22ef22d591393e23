import RegisterMachine.Machine.Run
import RegisterMachine.Proofs.Machine.Step

/-!
# Runs of a machine

A run is its steps: `advance r n m = (none, a)` says that `n` steps lead from `m` to `a` and that
the run goes on from there. Every other result comes from one last step, or from a program counter
that has left the program (`Machine.Ends`). What every step keeps, every run keeps
(`Machine.advance_induction`).
-/

namespace RegisterMachine.Machine

variable {r : Registry} {m m' a : Machine} {n : Nat}

theorem isRunning_iff : m.isRunning = true ↔ ∃ i, m.program.instructions[m.pc]? = some i := by
  unfold isRunning
  rw [decide_eq_true_iff]
  constructor
  · intro h
    exact ⟨_, Array.getElem?_eq_getElem h⟩
  · rintro ⟨i, hi⟩
    exact (Array.getElem?_eq_some_iff.1 hi).1

theorem advance_of_step (hm : m.isRunning = true) (h : m.step r = (.ok none, a)) :
    advance r (n + 1) m = advance r n a := by
  simp [advance, hm, h]

/-- The last of several steps. -/
theorem advance_succ_eq_none_iff : advance r (n + 1) m = (none, m') ↔
    ∃ a, advance r n m = (none, a) ∧ a.isRunning = true ∧ a.step r = (.ok none, m') := by
  induction n generalizing m with
  | zero =>
    simp only [advance]
    constructor
    · intro h
      split at h
      · rename_i hm
        split at h <;> cases h
        exact ⟨m, rfl, hm, by assumption⟩
      · cases h
    · rintro ⟨a, h, ha, hs⟩
      cases h
      simp [ha, hs]
  | succ n ih =>
    rw [advance]
    constructor
    · intro h
      split at h
      · rename_i hm
        split at h <;> rename_i b hs
        · obtain ⟨a, ha, hlast⟩ := ih.1 h
          exact ⟨a, (advance_of_step hm hs).trans ha, hlast⟩
        · cases h
        · cases h
      · cases h
    · rintro ⟨a, h, ha⟩
      rw [advance] at h
      split at h
      · rename_i hm
        split at h <;> rename_i b hs
        · simp only [hm, if_true]
          exact ih.2 ⟨a, h, ha⟩
        · cases h
        · cases h
      · cases h

/-- How a run that goes on from `m` may end at once. -/
inductive Ends (r : Registry) (m : Machine) : Except RuntimeError Ending → Machine → Prop
  | finished (h : m.isRunning = false) : Ends r m (.ok .finished) m
  | exited {m' : Machine} {status : Int32} (hm : m.isRunning = true)
    (h : m.step r = (.ok (some status), m')) : Ends r m (.ok (.exited status)) m'
  | failed {m' : Machine} {e : RuntimeError} (hm : m.isRunning = true)
    (h : m.step r = (.error e, m')) : Ends r m (.error e) m'

theorem advance_of_ends {result : Except RuntimeError Ending} (h : m.Ends r result m') :
    advance r (n + 1) m = (some result, m') := by
  cases h with
  | finished hm => simp [advance, hm]
  | exited hm hs | failed hm hs => simp [advance, hm, hs]

/-- A run either ends at once or takes a step and goes on. -/
theorem ends_or_step_of_advance {result : Option (Except RuntimeError Ending)}
    (h : advance r (n + 1) m = (result, m')) :
    (∃ ending, result = some ending ∧ m.Ends r ending m') ∨
      ∃ a, m.isRunning = true ∧ m.step r = (.ok none, a) ∧ advance r n a = (result, m') := by
  rw [advance] at h
  split at h
  · rename_i hm
    split at h <;> rename_i hs
    · exact .inr ⟨_, hm, hs, h⟩
    · cases h
      exact .inl ⟨_, rfl, .exited hm hs⟩
    · cases h
      exact .inl ⟨_, rfl, .failed hm hs⟩
  · rename_i hm
    cases h
    exact .inl ⟨_, rfl, .finished (Bool.eq_false_iff.2 hm)⟩

/-- A run that ends takes some steps that go on, and then ends. -/
theorem ends_of_advance {result : Except RuntimeError Ending}
    (h : advance r n m = (some result, m')) :
    ∃ k < n, ∃ a, advance r k m = (none, a) ∧ a.Ends r result m' := by
  induction n generalizing m with
  | zero => cases h
  | succ n ih =>
    obtain ⟨_, hresult, hend⟩ | ⟨a, hm, hs, h⟩ := ends_or_step_of_advance h
    · obtain rfl := Option.some.inj hresult
      exact ⟨0, n.succ_pos, m, rfl, hend⟩
    · obtain ⟨k, hk, b, hb, hend⟩ := ih h
      exact ⟨k + 1, Nat.succ_lt_succ hk, b, (advance_of_step hm hs).trans hb, hend⟩

/-- What holds of a machine and is kept by every step holds after every run. -/
theorem advance_induction {P : Machine → Prop}
    (hstep : ∀ a b result, P a → a.isRunning = true → a.step r = (result, b) → P b) (hm : P m)
    (n : Nat) : P (advance r n m).2 := by
  induction n generalizing m with
  | zero => exact hm
  | succ n ih =>
    unfold advance
    split
    · rename_i hrun
      split <;> rename_i hs
      · exact ih (hstep _ _ _ hm hrun hs)
      · exact hstep _ _ _ hm hrun hs
      · exact hstep _ _ _ hm hrun hs
    · exact hm

theorem sameResources_advance (hr : r.IsConfined) (n : Nat) (m : Machine) :
    m.SameResources (advance r n m).2 := by
  refine advance_induction (fun a b result ha hrun hs => ?_) (.refl m) n
  obtain ⟨i, hi⟩ := isRunning_iff.1 hrun
  exact ha.trans (steps_of_step hr hi hs).sameResources

end RegisterMachine.Machine
