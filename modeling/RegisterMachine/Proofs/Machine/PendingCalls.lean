import Mathlib.Data.List.Infix
import RegisterMachine.Machine.Trace
import RegisterMachine.Proofs.Machine.CallFaults
import RegisterMachine.Proofs.Machine.Calls

/-!
# The calls that an error names

An error names the failing instruction and the calls that led to it. Which calls these are can be
said without the call stack: calls and returns of the steps so far bracket, and the calls without a
return are pending (`Program.pendingCalls`). Whatever the steps are, the call stack holds these and
no others (`Machine.callers_of_trace`), and a step that fails reports it as it found it
(`Machine.context_of_advance_failed`).
-/

namespace RegisterMachine

theorem forall_prefix_cons_iff {α : Type} {x : α} {xs : List α} {P : List α → Prop} :
    (∀ ys, ys <+: x :: xs → P ys) ↔ P [] ∧ ∀ ys, ys <+: xs → P (x :: ys) := by
  simp only [List.prefix_cons_iff, or_imp, forall_and, forall_eq]
  refine and_congr_right fun _ => ⟨fun h ys hys => h _ ⟨ys, rfl, hys⟩, ?_⟩
  rintro h _ ⟨ys, rfl, hys⟩
  exact h ys hys

namespace Program

variable (p : Program)

/-- Whether the instruction at an address has the given opcode. -/
def hasOpcode (op : Opcode) (pc : Nat) : Bool :=
  p.instructions[pc]?.any (·.opcode == op)

/-- Whether a call is still pending after the steps at the addresses `later`. It is returned from as
soon as there are more returns than calls since. -/
def IsPending (later : List Nat) : Prop :=
  ∀ since, since <+: later → since.countP (p.hasOpcode .ret) ≤ since.countP (p.hasOpcode .call)

instance (later : List Nat) : Decidable (p.IsPending later) :=
  decidable_of_iff (∀ since ∈ later.inits,
      since.countP (p.hasOpcode .ret) ≤ since.countP (p.hasOpcode .call))
    (forall_congr' fun since => by rw [List.mem_inits])

/-- The calls without a return among the steps at the given addresses, in the order in which they
were made. -/
def pendingCalls : List Nat → List Nat
  | [] => []
  | pc :: later =>
    if p.hasOpcode .call pc ∧ p.IsPending later then pc :: pendingCalls later
    else pendingCalls later

/-- The number of returns without a call among the steps at the given addresses. -/
def unmatchedReturns : List Nat → Nat
  | [] => 0
  | pc :: later =>
    if p.hasOpcode .call pc then unmatchedReturns later - 1
    else if p.hasOpcode .ret pc then unmatchedReturns later + 1
    else unmatchedReturns later

variable {p}

theorem hasOpcode_eq {op : Opcode} {pc : Nat} {i : Instruction}
    (hi : p.instructions[pc]? = some i) : p.hasOpcode op pc = (i.opcode == op) := by
  simp [hasOpcode, hi]

/-- No instruction is a call and a return. -/
theorem hasOpcode_ret_of_call {pc : Nat} (h : p.hasOpcode .call pc = true) :
    p.hasOpcode .ret pc = false := by
  simp only [hasOpcode, Option.any_eq_true, beq_iff_eq] at h
  obtain ⟨i, hi, hop⟩ := h
  simp [hasOpcode, hi, hop]

/-- Returns find no call exactly as far as returns ever outnumber calls. -/
theorem unmatchedReturns_le_iff {later : List Nat} {k : Nat} : p.unmatchedReturns later ≤ k ↔
    ∀ since, since <+: later →
      since.countP (p.hasOpcode .ret) ≤ since.countP (p.hasOpcode .call) + k := by
  induction later generalizing k with
  | nil => simp [unmatchedReturns]
  | cons pc later ih =>
    rw [unmatchedReturns]
    split
    · rename_i hcall
      have hret := hasOpcode_ret_of_call hcall
      rw [Nat.sub_le_iff_le_add, ih, forall_prefix_cons_iff]
      simp [hcall, hret, Nat.add_right_comm, Nat.add_assoc]
    · rename_i hcall
      split
      · rename_i hret
        cases k with
        | zero =>
          refine iff_of_false (by omega) fun h => ?_
          have hfirst := h [pc] (by simp)
          simp [hcall, hret] at hfirst
        | succ k =>
          rw [Nat.add_le_add_iff_right, ih, forall_prefix_cons_iff]
          simp [hcall, hret, ← Nat.add_assoc]
      · rename_i hret
        rw [ih, forall_prefix_cons_iff]
        simp [hcall, hret]

theorem isPending_iff {later : List Nat} : p.IsPending later ↔ p.unmatchedReturns later = 0 := by
  rw [← Nat.le_zero, unmatchedReturns_le_iff]
  rfl

end Program

namespace Machine

variable {r : Registry} {m m' a : Machine} {i : Instruction} {n : Nat}

theorem exists_instruction_of_step_eq_ok {status : Option Int32} (h : m.step r = (.ok status, a)) :
    ∃ i, m.program.instructions[m.pc]? = some i := by
  cases hi : m.program.instructions[m.pc]? with
  | none => simp [step, hi] at h
  | some i => exact ⟨i, rfl⟩

/-- The first of several steps that all go on. -/
theorem exists_step_of_trace {records : List StepRecord}
    (h : trace r (n + 1) m = (records, .limit, a)) : ∃ b later, m.step r = (.ok none, b) ∧
      trace r n b = (later, .limit, a) ∧ records = m.stepRecord b :: later := by
  rw [trace] at h
  split at h
  · rename_i b hs
    obtain ⟨rfl, hlater⟩ := Prod.mk.inj h
    exact ⟨b, (trace r n b).1, hs, Prod.snd_eq_iff.1 hlater, rfl⟩
  · cases h
  · cases h

/-- After steps that all go on, the pending calls are those among the steps, on top of the earlier
ones that no step has returned from. -/
theorem callers_of_trace (hr : r.IsConfined) {records : List StepRecord}
    (h : trace r n m = (records, .limit, a)) :
    let steps := records.map (·.pcBefore)
    a.calls.callers = (m.program.pendingCalls steps).reverse ++
      m.calls.callers.drop (m.program.unmatchedReturns steps) := by
  induction n generalizing m records with
  | zero =>
    cases h
    simp [Program.pendingCalls, Program.unmatchedReturns]
  | succ n ih =>
    obtain ⟨b, later, hs, hlater, rfl⟩ := exists_step_of_trace h
    obtain ⟨i, hi⟩ := exists_instruction_of_step_eq_ok hs
    have hsteps := steps_of_step hr hi hs
    have hb := ih hlater
    rw [hsteps.callers_eq, hsteps.sameResources.program] at hb
    simp only [List.map_cons, stepRecord, Program.pendingCalls, Program.unmatchedReturns,
      Program.hasOpcode_eq hi, beq_iff_eq, Program.isPending_iff]
    rw [hb]
    by_cases hcall : i.opcode = .call
    · -- The call is pending, or one of the later returns is from it and drops it from the stack.
      cases hreturns : m.program.unmatchedReturns (later.map (·.pcBefore)) <;> simp [hcall]
    · by_cases hret : i.opcode = .ret <;> simp [hcall, hret]

/-- A run that fails takes the steps of its trace, and then one that fails. -/
theorem trace_of_advance_failed {e : RuntimeError} (h : advance r n m = (some (.error e), m')) :
    ∃ records a, trace r n m = (records, .failed e, m') ∧
      trace r records.length m = (records, .limit, a) ∧ a.isRunning = true ∧
      a.step r = (.error e, m') := by
  induction n generalizing m with
  | zero => cases h
  | succ n ih =>
    obtain ⟨_, hresult, hend⟩ | ⟨b, -, hs, h⟩ := ends_or_step_of_advance h
    · obtain rfl := Option.some.inj hresult
      cases hend with
      | failed hm hs => exact ⟨[], m, by simp [trace, hs], rfl, hm, hs⟩
    · obtain ⟨later, a, htrace, hlimit, ha, hfail⟩ := ih h
      refine ⟨m.stepRecord b :: later, a, ?_, ?_, ha, hfail⟩
      · simp [trace, hs, htrace]
      · simp [trace, hs, hlimit]

/-- The error of a run that fails belongs to the instruction whose step failed, and its context is
the place of that instruction followed by the calls that the run has made and not returned from, the
innermost first. There is one for every frame of the call stack; none where a return finds no call,
and as many as configured where a call, which is not one of them, finds no room. -/
theorem context_of_advance_failed {config : Config} {p : Program} {console : Console}
    {e : RuntimeError} (h : advance .standard n (start config p console) = (some (.error e), m)) :
    ∃ records a i, trace .standard n (start config p console) = (records, .failed e, m) ∧
      trace .standard records.length (start config p console) = (records, .limit, a) ∧
      a.step .standard = (.error e, m) ∧ p.instructions[a.pc]? = some i ∧
      e.place = some (i.opcode, a.pc) ∧
      let pending := p.pendingCalls (records.map (·.pcBefore))
      e.context = p.describe a.pc ::
          pending.reverse.map (fun caller => "called from ".toList ++ p.describe caller) ∧
        e.context.length = 1 + a.calls.depth ∧
        (e.fault = .returnWithoutCall → i.opcode = .ret ∧ pending = []) ∧
        ∀ capacity, e.fault = .stackOverflow capacity →
          i.opcode = .call ∧ capacity = config.callDepth ∧ pending.length = config.callDepth := by
  have hr := Registry.isConfined_standard
  obtain ⟨records, a, htrace, hlimit, ha, hs⟩ := trace_of_advance_failed h
  obtain ⟨i, hi⟩ := isRunning_iff.1 ha
  have hcallers : a.calls.callers = (p.pendingCalls (records.map (·.pcBefore))).reverse := by
    have hrun := callers_of_trace hr hlimit
    simpa [start, CallStack.callers] using hrun
  have hplaced : m.IsPlaced config p := by
    have hn := (isPlaced_start config p console).advance hr n
    rwa [h] at hn
  have hfault := failsOnCalls_of_step hi hs
  cases steps_of_step hr hi hs with
  | fault fault console =>
    have hprogram : a.program = p := hplaced.program
    refine ⟨records, a, i, htrace, hlimit, hs, hprogram ▸ hi, rfl, ?_, ?_, fun heq => ?_,
      fun capacity heq => ?_⟩
    · simp only [located, hprogram, hcallers]
    · simp [located, CallStack.length_callers, Nat.add_comm]
    · obtain ⟨hop, hnil⟩ := (heq ▸ hfault).ret_of_returnWithoutCall
      exact ⟨hop, List.reverse_eq_nil_iff.1 (hcallers.symm.trans hnil)⟩
    · obtain ⟨hop, hcapacity, hfull⟩ := (heq ▸ hfault).call_of_stackOverflow
      have hroom : a.calls.capacity = config.callDepth := hplaced.capacity
      have hdepth : a.calls.depth ≤ config.callDepth := hplaced.depth_le
      rw [← List.length_reverse, ← hcallers, CallStack.length_callers]
      exact ⟨hop, hcapacity.trans hroom, Nat.le_antisymm hdepth (hroom ▸ hfull)⟩

/-- The first call returns. The second leads to a function that calls itself, and there is room for
two pending calls. -/
theorem context_of_advance_failed_recursion :
    let p : Program := { instructions := #[⟨.call, [.target 3]⟩, ⟨.call, [.target 4]⟩, ⟨.ret, []⟩,
      ⟨.ret, []⟩, ⟨.call, [.target 4]⟩] }
    let m := start { callDepth := 2 } p {}
    ∃ e a, advance .standard 5 m = (some (.error e), a) ∧ e.fault = .stackOverflow 2 ∧
      e.place = some (.call, 4) ∧ (trace .standard 5 m).1.map (·.pcBefore) = [0, 3, 1, 4] ∧
      e.context = p.describe 4 ::
        [4, 1].map fun caller => "called from ".toList ++ p.describe caller := by
  intro p m
  let e : RuntimeError :=
    { fault := .stackOverflow 2, place := some (.call, 4)
      context :=
        p.describe 4 :: [4, 1].map fun caller => "called from ".toList ++ p.describe caller }
  have h : advance .standard 5 m = (some (.error e), _) := Prod.fst_eq_iff.1 (by decide +kernel)
  have hsteps : (trace .standard 5 m).1.map (·.pcBefore) = [0, 3, 1, 4] := by decide +kernel
  have hpending : p.pendingCalls [0, 3, 1, 4] = [1, 4] := by decide +kernel
  obtain ⟨records, a, i, htrace, -, -, -, hplace, hcontext, -⟩ := context_of_advance_failed h
  obtain ⟨-, hpc⟩ := Prod.mk.inj (Option.some.inj hplace)
  rw [htrace] at hsteps
  refine ⟨e, _, h, rfl, rfl, by rw [htrace]; exact hsteps, ?_⟩
  simp only [hsteps, hpending, ← hpc] at hcontext
  exact hcontext

end Machine

end RegisterMachine
