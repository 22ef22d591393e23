import RegisterMachine.Proofs.Machine.Run

/-!
# Reachable machines

What holds of every machine that a run goes through, whatever its program is: the program counter
stays within the program or at its end, and the pending calls are addresses of call instructions, no
more of them than there is room for. The bound on the program counter needs the fact about the
calls, as a return goes to the instruction behind one of them.
-/

namespace RegisterMachine.Machine

/-- A machine that a run of `p` under `config` may go through. -/
structure IsPlaced (config : Config) (p : Program) (m : Machine) : Prop where
  program : m.program = p
  size_memory : m.memory.size = config.memorySize
  capacity : m.calls.capacity = config.callDepth
  pc_le : m.pc ≤ p.size
  depth_le : m.calls.depth ≤ config.callDepth
  callers : ∀ c ∈ m.calls.callers, ∃ i, p.instructions[c]? = some i ∧ i.opcode = .call

variable {config : Config} {p : Program} {m m' : Machine} {i : Instruction}

theorem isPlaced_start (config : Config) (p : Program) (console : Console) :
    (start config p console).IsPlaced config p where
  program := rfl
  size_memory := rfl
  capacity := rfl
  pc_le := Nat.zero_le _
  depth_le := Nat.zero_le _
  callers := by simp [start, CallStack.callers]

theorem lt_size_of_getElem? {c : Nat} (h : p.instructions[c]? = some i) : c < p.size :=
  (Array.getElem?_eq_some_iff.1 h).1

/-- A step of a well placed machine, wherever the program counter goes and whatever happens to the
pending calls. -/
theorem IsPlaced.move (hm : m.IsPlaced config p) (hr : m.SameResources m') (hpc : m'.pc ≤ p.size)
    (hdepth : m'.calls.depth ≤ config.callDepth)
    (hcallers : ∀ c ∈ m'.calls.callers, c ∈ m.calls.callers ∨
      ∃ i, p.instructions[c]? = some i ∧ i.opcode = .call) : m'.IsPlaced config p where
  program := hr.program.trans hm.program
  size_memory := hr.size_memory.trans hm.size_memory
  capacity := hr.capacity.trans hm.capacity
  pc_le := hpc
  depth_le := hdepth
  callers := fun c hc => (hcallers c hc).elim (hm.callers c) id

theorem IsPlaced.step {result : Except RuntimeError (Option Int32)} (hm : m.IsPlaced config p)
    (hi : p.instructions[m.pc]? = some i) (h : m.Steps i result m') : m'.IsPlaced config p := by
  have hlt : m.pc < p.size := lt_size_of_getElem? hi
  have hres := h.sameResources
  cases h with
  | next h =>
    cases h with
    | next h =>
      refine hm.move hres hlt ?_ fun c hc => ?_
      · exact h.calls ▸ hm.depth_le
      · exact .inl (h.calls ▸ hc)
  | jump h =>
    cases h with
    | jump h _ ht =>
      refine hm.move hres (hm.program ▸ ht) ?_ fun c hc => ?_
      · exact h.calls ▸ hm.depth_le
      · exact .inl (h.calls ▸ hc)
    | call _ hop ht hpush =>
      obtain ⟨hcallers, -⟩ := CallStack.callers_of_push hpush
      have hroom := CallStack.depth_lt_of_push hpush
      refine hm.move hres (hm.program ▸ ht) ?_ fun c hc => ?_
      · rw [← CallStack.length_callers, hcallers, List.length_cons, CallStack.length_callers]
        exact hm.capacity ▸ hroom
      · rw [hcallers] at hc
        rcases List.mem_cons.1 hc with rfl | hc
        · exact .inr ⟨i, hi, hop⟩
        · exact .inl hc
    | @ret m₁ caller calls _ hop hpop =>
      obtain ⟨hcallers, -⟩ := CallStack.callers_of_pop hpop
      -- The frame that is left is a call, so there is an instruction or the end behind it.
      obtain ⟨j, hj, -⟩ := hm.callers caller (by simp [hcallers])
      have hdepth : m.calls.depth = calls.depth + 1 := by
        rw [← CallStack.length_callers, hcallers, List.length_cons, CallStack.length_callers]
      have hle := hm.depth_le
      refine hm.move hres (lt_size_of_getElem? hj) ?_ fun c hc => ?_
      · show calls.depth ≤ config.callDepth
        omega
      · exact .inl (by rw [hcallers]; exact List.mem_cons_of_mem _ hc)
  | exit h =>
    cases h with
    | exit h =>
      refine hm.move hres (h.pc ▸ hm.pc_le) ?_ fun c hc => ?_
      · exact h.calls ▸ hm.depth_le
      · exact .inl (h.calls ▸ hc)
  | fault => exact hm.move hres hm.pc_le hm.depth_le fun _ => .inl

theorem IsPlaced.advance {r : Registry} (hr : r.IsConfined) (hm : m.IsPlaced config p) (n : Nat) :
    (advance r n m).2.IsPlaced config p := by
  refine advance_induction (fun a b result ha hrun hs => ?_) hm n
  obtain ⟨i, hi⟩ := isRunning_iff.1 hrun
  exact ha.step (ha.program ▸ hi) (steps_of_step hr hi hs)

/-- Every machine that a run of any program goes through is well placed: the program and the size of
memory never change, the program counter is at most the size of the program, and the pending calls
are calls of the program, at most as many as configured. So every error of a run belongs to an
instruction, the one at the program counter, and a run that finishes has its program counter at the
end. -/
theorem isPlaced_of_run {console : Console} {n : Nat}
    {result : Option (Except RuntimeError Ending)}
    (h : Machine.advance .standard n (start config p console) = (result, m)) :
    m.IsPlaced config p ∧
      (∀ e, result = some (.error e) →
        ∃ i, p.instructions[m.pc]? = some i ∧ e = m.located i e.fault) ∧
      (result = some (.ok .finished) → m.pc = p.size) := by
  have hplaced (k : Nat) :
      (Machine.advance .standard k (start config p console)).2.IsPlaced config p :=
    (isPlaced_start config p console).advance Registry.isConfined_standard k
  have hm : m.IsPlaced config p := by
    have hn := hplaced n
    rwa [h] at hn
  refine ⟨hm, fun e he => ?_, fun hf => ?_⟩
  · subst he
    obtain ⟨k, -, a, ha, hend⟩ := ends_of_advance h
    cases hend with
    | failed hrun hs =>
      have hprogram := hplaced k
      rw [ha] at hprogram
      obtain ⟨i, hi⟩ := isRunning_iff.1 hrun
      cases steps_of_step Registry.isConfined_standard hi hs with
      | fault => exact ⟨i, hprogram.program ▸ hi, rfl⟩
  · subst hf
    obtain ⟨k, -, a, ha, hend⟩ := ends_of_advance h
    cases hend with
    | finished hstop =>
      have hge : ¬ m.pc < m.program.size := of_decide_eq_false hstop
      rw [hm.program] at hge
      have := hm.pc_le
      omega

/-- A function is called from the first instruction and returns to a jump to the end. -/
theorem isPlaced_of_run_call_ret :
    let p : Program :=
      { instructions := #[⟨.call, [.target 2]⟩, ⟨.jmp, [.target 3]⟩, ⟨.ret, []⟩] }
    ∃ m, Machine.advance .standard 4 (start {} p {}) = (some (.ok .finished), m) ∧
      m.IsPlaced {} p ∧ m.pc = 3 := by
  intro p
  have hend : (Machine.advance .standard 4 (start {} p {})).1 = some (.ok .finished) := by
    decide +kernel
  have h := Prod.fst_eq_iff.1 hend
  obtain ⟨hplaced, -, hpc⟩ := isPlaced_of_run h
  exact ⟨_, h, hplaced, hpc rfl⟩

end RegisterMachine.Machine
