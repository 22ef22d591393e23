import RegisterMachine.Proofs.Machine.Reachable

/-!
# Calls and returns

A call puts its address on top of the pending calls, and until it returns those below stay as they
are: whatever runs in between only works above them. The step that brings the depth back is a return
to the instruction behind the call.
-/

namespace RegisterMachine.Machine

variable {r : Registry} {m m' a b : Machine} {i : Instruction}

/-- A step above pending calls keeps them at the bottom, or it is the return from the innermost of
them. -/
theorem Steps.suffix_or_return {result : Except RuntimeError (Option Int32)} {c : Nat}
    {cs : List Nat} (h : a.Steps i result b) (ha : c :: cs <:+ a.calls.callers) :
    c :: cs <:+ b.calls.callers ∨
      (result = .ok none ∧ i.opcode = .ret ∧ b.pc = c + 1 ∧ b.calls.callers = cs) := by
  cases h with
  | next h =>
    cases h with
    | next h => exact .inl (h.calls ▸ ha)
  | jump h =>
    cases h with
    | jump h => exact .inl (h.calls ▸ ha)
    | call _ _ _ hpush =>
      obtain ⟨hcallers, -⟩ := CallStack.callers_of_push hpush
      exact .inl (hcallers ▸ ha.trans (List.suffix_cons _ _))
    | ret _ hop hpop =>
      obtain ⟨hcallers, -⟩ := CallStack.callers_of_pop hpop
      rw [hcallers] at ha
      rcases List.suffix_cons_iff.1 ha with heq | hsuffix
      · obtain ⟨rfl, rfl⟩ := List.cons.inj heq
        exact .inr ⟨rfl, hop, rfl, rfl⟩
      · exact .inl hsuffix
  | exit h =>
    cases h with
    | exit h => exact .inl (h.calls ▸ ha)
  | fault => exact .inl ha

theorem suffix_of_advance (hr : r.IsConfined) {c : Nat} {cs : List Nat} {k : Nat}
    (hm : c :: cs <:+ m.calls.callers) (h : advance r k m = (none, a))
    (hdeep : ∀ j ≤ k, ∀ b, advance r j m = (none, b) → b.calls.depth ≠ cs.length) :
    c :: cs <:+ a.calls.callers := by
  induction k generalizing a with
  | zero =>
    cases h
    exact hm
  | succ k ih =>
    obtain ⟨b, hb, hrun, hs⟩ := advance_succ_eq_none_iff.1 h
    obtain ⟨i, hi⟩ := isRunning_iff.1 hrun
    have hbs := ih hb fun j hj => hdeep j (Nat.le_succ_of_le hj)
    rcases (steps_of_step hr hi hs).suffix_or_return hbs with hsuffix | ⟨-, -, -, hcs⟩
    · exact hsuffix
    · refine absurd ?_ (hdeep (k + 1) (Nat.le_refl _) a h)
      rw [← CallStack.length_callers, hcs]

/-- A step that goes on pushes its address if it is a call, pops if it is a return, and leaves the
pending calls as they are otherwise. -/
theorem Steps.callers_eq (h : m.Steps i (.ok none) m') : m'.calls.callers =
    if i.opcode = .call then m.pc :: m.calls.callers
    else if i.opcode = .ret then m.calls.callers.tail
    else m.calls.callers := by
  cases h with
  | next h =>
    cases h with
    | next h hcall hret => rw [if_neg hcall, if_neg hret, ← h.calls]
  | jump h =>
    cases h with
    | jump h hop =>
      have hcall : i.opcode ≠ .call := by
        intro hi
        simp [hi, Opcode.shape] at hop
      have hret : i.opcode ≠ .ret := by
        intro hi
        simp [hi, Opcode.shape] at hop
      rw [if_neg hcall, if_neg hret, ← h.calls]
    | call _ hop _ hpush => rw [if_pos hop, (CallStack.callers_of_push hpush).1]
    | ret _ hop hpop =>
      obtain ⟨hcallers, -⟩ := CallStack.callers_of_pop hpop
      simp [hop, hcallers]

theorem Steps.callers_of_call (h : m.Steps i (.ok none) m') (hop : i.opcode = .call) :
    m'.calls.callers = m.pc :: m.calls.callers := by
  rw [h.callers_eq, if_pos hop]

/-- Calls and returns bracket. Let a call succeed at `m`, and let the depth of the pending calls
stay different from the one at `m` for the next `k` steps. Then the pending calls of `m` stay below
that call all along; and if one more step brings the depth back, it is a return, execution goes on
behind the call, and the pending calls are those of `m`. -/
theorem return_of_call {m₁ : Machine} {k : Nat} (hi : m.program.instructions[m.pc]? = some i)
    (hop : i.opcode = .call) (hcall : m.step .standard = (.ok none, m₁))
    (ha : advance .standard k m₁ = (none, a))
    (hdeep : ∀ j ≤ k, ∀ b, advance .standard j m₁ = (none, b) → b.calls.depth ≠ m.calls.depth) :
    (∀ j ≤ k, ∀ b, advance .standard j m₁ = (none, b) →
        m.pc :: m.calls.callers <:+ b.calls.callers) ∧
      ∀ result b, a.step .standard = (result, b) → b.calls.depth = m.calls.depth →
        result = .ok none ∧ (∃ i', a.program.instructions[a.pc]? = some i' ∧ i'.opcode = .ret) ∧
          b.pc = m.pc + 1 ∧ b.calls = m.calls := by
  have hr := Registry.isConfined_standard
  have hm₁ : m.pc :: m.calls.callers <:+ m₁.calls.callers :=
    (steps_of_step hr hi hcall).callers_of_call hop ▸ List.suffix_refl _
  have hbelow (j : Nat) (hj : j ≤ k) (b : Machine) (hb : advance .standard j m₁ = (none, b)) :
      m.pc :: m.calls.callers <:+ b.calls.callers := by
    refine suffix_of_advance hr hm₁ hb fun l hl c hc => ?_
    rw [CallStack.length_callers]
    exact hdeep l (Nat.le_trans hl hj) c hc
  refine ⟨hbelow, fun result b hs hdepth => ?_⟩
  have hsame : m.SameResources a := by
    have h₁ := (steps_of_step hr hi hcall).sameResources
    have h₂ := sameResources_advance hr k m₁
    rw [ha] at h₂
    exact h₁.trans h₂
  cases hia : a.program.instructions[a.pc]? with
  | none =>
    simp only [step, hia] at hs
    cases hs
    exact absurd hdepth (hdeep k (Nat.le_refl k) _ ha)
  | some i' =>
    have hsteps := steps_of_step hr hia hs
    rcases hsteps.suffix_or_return (hbelow k (Nat.le_refl k) a ha) with hsuffix | hret
    · have hlen := hsuffix.length_le
      simp only [List.length_cons, CallStack.length_callers] at hlen
      omega
    · obtain ⟨hresult, hop', hpc, hcallers⟩ := hret
      refine ⟨hresult, ⟨i', rfl, hop'⟩, hpc, CallStack.ext_callers hcallers ?_⟩
      exact hsteps.sameResources.capacity.trans hsame.capacity

/-- The function called first calls another one and returns two steps later. -/
theorem return_of_call_nested :
    let m := start {} { instructions := #[⟨.call, [.target 2]⟩, ⟨.ret, []⟩, ⟨.call, [.target 4]⟩,
      ⟨.ret, []⟩, ⟨.ret, []⟩] } {}
    ∃ m₁ a b, m.step .standard = (.ok none, m₁) ∧ advance .standard 2 m₁ = (none, a) ∧
      a.step .standard = (.ok none, b) ∧ b.pc = 1 ∧ b.calls = m.calls := by
  intro m
  let m₁ := (m.step .standard).2
  let a := (advance .standard 2 m₁).2
  let b := (a.step .standard).2
  have hcall : m.step .standard = (.ok none, m₁) := Prod.fst_eq_iff.1 (by decide +kernel)
  have ha : advance .standard 2 m₁ = (none, a) := Prod.fst_eq_iff.1 (by decide +kernel)
  have hb : a.step .standard = (.ok none, b) := Prod.fst_eq_iff.1 (by decide +kernel)
  have hdepth : ∀ j ≤ 2, (advance .standard j m₁).2.calls.depth ≠ m.calls.depth := by
    decide +kernel
  have hreturn := return_of_call (i := ⟨.call, [.target 2]⟩) rfl rfl hcall ha fun j hj c hc => by
    have hj := hdepth j hj
    rwa [hc] at hj
  obtain ⟨-, -, hpc, hcalls⟩ := hreturn.2 _ b hb (by decide +kernel)
  exact ⟨m₁, a, b, hcall, ha, hb, hpc, hcalls⟩

end RegisterMachine.Machine
