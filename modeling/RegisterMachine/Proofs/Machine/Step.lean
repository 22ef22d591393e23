import Mathlib.Data.Prod.Basic
import RegisterMachine.Proofs.Service.Frame

/-!
# What a step does

Everything that an instruction can do to the program counter and to the pending calls, said once:
`Machine.Executes` for the instruction and `Machine.Steps` for the step around it. Facts about
single steps and about runs are read off these two and do not open the instructions again. A step
that fails leaves all of the machine but its console as it was (`Machine.eq_of_step_failed`).
-/

namespace RegisterMachine.Machine

variable {m m' : Machine} {i : Instruction} {flow : Flow}

/-- What the instruction `i` does to the shape of a machine: where execution goes on, and the
machine before the program counter moves. -/
inductive Executes (m : Machine) (i : Instruction) : Flow → Machine → Prop
  | next {m' : Machine} (h : m.SameShape m') (hcall : i.opcode ≠ .call) (hret : i.opcode ≠ .ret) :
    Executes m i .next m'
  | jump {m' : Machine} {target : Nat} (h : m.SameShape m') (hop : i.opcode.shape = .label)
    (ht : target ≤ m.program.size) : Executes m i (.jump target) m'
  | call {m' : Machine} {target : Nat} {calls : CallStack} (h : m.SameShape m')
    (hop : i.opcode = .call) (ht : target ≤ m.program.size)
    (hpush : CallStack.push m.pc m.calls = (.ok (), calls)) :
    Executes m i (.jump target) { m' with calls }
  | ret {m' : Machine} {caller : Nat} {calls : CallStack} (h : m.SameShape m')
    (hop : i.opcode = .ret) (hpop : CallStack.pop m.calls = (.ok caller, calls)) :
    Executes m i (.jump (caller + 1)) { m' with calls }
  | exit {m' : Machine} {status : Int32} (h : m.SameShape m') (hop : i.opcode = .syscall) :
    Executes m i (.exit status) m'

theorem Executes.of_sameShape {m₀ : Machine} (h : m.SameShape m₀) (he : m₀.Executes i flow m') :
    m.Executes i flow m' := by
  cases he with
  | next h' hcall hret => exact .next (h.trans h') hcall hret
  | jump h' hop ht => exact .jump (h.trans h') hop (h.program ▸ ht)
  | call h' hop ht hpush =>
    exact .call (h.trans h') hop (h.program ▸ ht) (by rw [← h.calls, ← h.pc]; exact hpush)
  | ret h' hop hpop => exact .ret (h.trans h') hop (h.calls ▸ hpop)
  | exit h' hop => exact .exit (h.trans h') hop

theorem andNext_eq_ok_iff {x : Action Machine Fault Unit} :
    andNext x m = (.ok flow, m') ↔ x m = (.ok (), m') ∧ flow = .next := by
  constructor
  · intro h
    obtain ⟨_, m₁, hx, h⟩ := Action.bind_eq_ok_iff.1 h
    cases h
    exact ⟨hx, rfl⟩
  · rintro ⟨hx, rfl⟩
    exact Action.bind_of_ok hx _

theorem executes_of_next {x : Action Machine Fault Unit} (hcall : i.opcode ≠ .call)
    (hret : i.opcode ≠ .ret) (hx : x m = (.ok (), m') → m.SameShape m')
    (h : andNext x m = (.ok flow, m')) : m.Executes i flow m' := by
  obtain ⟨ha, rfl⟩ := andNext_eq_ok_iff.1 h
  exact .next (hx ha) hcall hret

theorem executes_of_jump (hop : i.opcode.shape = .label) (h : jump i m = (.ok flow, m')) :
    m.Executes i flow m' := by
  simp only [jump, Action.get_bind] at h
  obtain ⟨target, ht, h⟩ := Action.lift_bind_eq_ok_iff.1 h
  cases h
  split
  · exact .jump (.refl m) hop (le_size_of_target ht)
  · refine .next (.refl m) ?_ ?_ <;> intro hi <;> simp [hi, Opcode.shape] at hop

theorem executes_of_enter (hop : i.opcode = .call) (h : enter i m = (.ok flow, m')) :
    m.Executes i flow m' := by
  simp only [enter, Action.get_bind] at h
  obtain ⟨target, ht, h⟩ := Action.lift_bind_eq_ok_iff.1 h
  obtain ⟨_, m₁, hcalls, h⟩ := Action.bind_eq_ok_iff.1 h
  obtain ⟨calls, hpush, rfl⟩ := Action.onPart_eq_ok_iff.1 hcalls
  cases h
  exact .call (.refl m) hop (le_size_of_target ht) hpush

theorem executes_of_leave (hop : i.opcode = .ret) (h : leave m = (.ok flow, m')) :
    m.Executes i flow m' := by
  obtain ⟨caller, m₁, hcalls, h⟩ := Action.bind_eq_ok_iff.1 h
  obtain ⟨calls, hpop, rfl⟩ := Action.onPart_eq_ok_iff.1 hcalls
  cases h
  exact .ret (.refl m) hop hpop

theorem executes_of_perform (h : perform i m = (.ok flow, m')) : m.Executes i flow m' := by
  unfold perform at h
  cases hop : i.opcode <;> simp only [hop] at h
  case mov => exact executes_of_next (by simp [hop]) (by simp [hop]) sameShape_of_move h
  case load => exact executes_of_next (by simp [hop]) (by simp [hop]) sameShape_of_load h
  case store => exact executes_of_next (by simp [hop]) (by simp [hop]) sameShape_of_store h
  case cmp => exact executes_of_next (by simp [hop]) (by simp [hop]) sameShape_of_compare h
  case ldstr => exact executes_of_next (by simp [hop]) (by simp [hop]) sameShape_of_loadString h
  case jmp | je | jne | jg | jl => exact executes_of_jump (by simp [hop, Opcode.shape]) h
  case call => exact executes_of_enter hop h
  case ret => exact executes_of_leave hop h
  all_goals exact executes_of_next (by simp [hop]) (by simp [hop]) sameShape_of_combine h

section Registry

variable {r : Registry}

/-- A step that goes on behind an instruction without a service. -/
theorem step_of_perform_eq_next (hi : m.program.instructions[m.pc]? = some i)
    (hservice : i.opcode ≠ .syscall)
    (h : perform i (m.note fun _ => .executing m.pc i) = (.ok .next, m')) :
    m.step r = (.ok none, { m' with pc := m.pc + 1 }) := by
  simp only [step, hi, execute_of_ne_syscall hservice, h]

theorem step_of_perform_eq_error {fault : Fault} (hi : m.program.instructions[m.pc]? = some i)
    (hservice : i.opcode ≠ .syscall)
    (h : perform i (m.note fun _ => .executing m.pc i) = (.error fault, m')) :
    m.step r = (.error (m'.located i fault), m') := by
  simp only [step, hi, execute_of_ne_syscall hservice, h]

variable (hr : r.IsConfined)
include hr

theorem executes_of_execute (h : execute r i m = (.ok flow, m')) : m.Executes i flow m' := by
  by_cases hop : i.opcode = .syscall
  · simp only [execute, hop, callService, Action.get_bind] at h
    obtain ⟨outcome, m₁, hcall, h⟩ := Action.bind_eq_ok_iff.1 h
    have hc := hr.call (m.arg 0) m
    rw [hcall] at hc
    cases outcome <;> cases h
    · exact .next hc.toSameShape (by simp [hop]) (by simp [hop])
    · exact .exit hc.toSameShape hop
  · rw [execute_of_ne_syscall hop] at h
    exact executes_of_perform h

/-- What an instruction that fails leaves behind. -/
theorem eq_of_execute_failed {fault : Fault} (h : execute r i m = (.error fault, m')) :
    m' = { m with heap := m'.heap, console := m'.console } ∧
      (¬ fault.IsExhaustion → m'.heap = m.heap) := by
  by_cases hop : i.opcode = .syscall
  · simp only [execute, hop, callService, Action.get_bind] at h
    rcases Action.bind_eq_error_iff.1 h with hcall | ⟨outcome, m₁, -, h⟩
    · have hc := hr.call (m.arg 0) m
      rw [hcall] at hc
      exact ⟨hc.failed _ rfl, hc.heap_of_failed _ rfl⟩
    · cases outcome <;> cases h
  · rw [execute_of_ne_syscall hop] at h
    obtain rfl := isAtomic_perform _ _ _ h
    exact ⟨rfl, fun _ => rfl⟩

omit hr in
/-- What a step at the instruction `i` does, and how it ends. -/
inductive Steps (m : Machine) (i : Instruction) :
    Except RuntimeError (Option Int32) → Machine → Prop
  | next {m' : Machine} (h : m.Executes i .next m') :
    Steps m i (.ok none) { m' with pc := m.pc + 1 }
  | jump {m' : Machine} {target : Nat} (h : m.Executes i (.jump target) m') :
    Steps m i (.ok none) { m' with pc := target }
  | exit {m' : Machine} {status : Int32} (h : m.Executes i (.exit status) m') :
    Steps m i (.ok (some status)) m'
  | fault (fault : Fault) (heap : Heap) (console : Console)
    (hheap : ¬ fault.IsExhaustion → heap = m.heap) :
    Steps m i (.error (m.located i fault)) { m with heap, console }

theorem steps_of_step {result : Except RuntimeError (Option Int32)}
    (hi : m.program.instructions[m.pc]? = some i) (h : m.step r = (result, m')) :
    m.Steps i result m' := by
  have hnote : m.SameShape (m.note fun _ => .executing m.pc i) := ⟨rfl, rfl, rfl, rfl⟩
  simp only [step, hi] at h
  split at h <;> rename_i after heq <;> cases h
  · exact .next ((executes_of_execute hr heq).of_sameShape hnote)
  · exact .jump ((executes_of_execute hr heq).of_sameShape hnote)
  · exact .exit ((executes_of_execute hr heq).of_sameShape hnote)
  · obtain ⟨hafter, hheap⟩ := eq_of_execute_failed hr heq
    rw [hafter]
    exact .fault _ _ _ hheap

end Registry

/-- `m'` has the program of `m`, and memory and room for calls as large as those of `m`. -/
structure SameResources (m m' : Machine) : Prop where
  program : m'.program = m.program
  size_memory : m'.memory.size = m.memory.size
  capacity : m'.calls.capacity = m.calls.capacity

theorem SameResources.refl (m : Machine) : m.SameResources m :=
  ⟨rfl, rfl, rfl⟩

theorem SameResources.trans {m'' : Machine} (h : m.SameResources m') (h' : m'.SameResources m'') :
    m.SameResources m'' :=
  ⟨h'.program.trans h.program, h'.size_memory.trans h.size_memory, h'.capacity.trans h.capacity⟩

theorem SameShape.sameResources (h : m.SameShape m') : m.SameResources m' :=
  ⟨h.program, h.size_memory, congrArg CallStack.capacity h.calls⟩

theorem Executes.sameResources (h : m.Executes i flow m') : m.SameResources m' := by
  cases h with
  | next h => exact h.sameResources
  | jump h => exact h.sameResources
  | call h _ _ hpush =>
    exact ⟨h.program, h.size_memory, (CallStack.callers_of_push hpush).2⟩
  | ret h _ hpop =>
    exact ⟨h.program, h.size_memory, (CallStack.callers_of_pop hpop).2⟩
  | exit h => exact h.sameResources

theorem Steps.sameResources {result : Except RuntimeError (Option Int32)}
    (h : m.Steps i result m') : m.SameResources m' := by
  cases h with
  | next h | jump h =>
    have hm := h.sameResources
    exact ⟨hm.program, hm.size_memory, hm.capacity⟩
  | exit h => exact h.sameResources
  | fault => exact ⟨rfl, rfl, rfl⟩

/-- A step that fails under the standard services changes nothing but what the console exchanged:
registers, memory, the program counter, pending calls, the heap, the scopes and the frames are those
from before the step. Only where the heap has no handle left may it be another one. -/
theorem eq_of_step_failed {e : RuntimeError} (h : m.step .standard = (.error e, m')) :
    m' = { m with heap := m'.heap, console := m'.console } ∧
      (¬ e.fault.IsExhaustion → m' = { m with console := m'.console }) := by
  cases hi : m.program.instructions[m.pc]? with
  | none =>
    simp only [step, hi] at h
    cases h
    exact ⟨rfl, fun _ => rfl⟩
  | some i =>
    cases steps_of_step Registry.isConfined_standard hi h with
    | fault fault heap console hheap =>
      refine ⟨rfl, fun hexhausted => ?_⟩
      obtain rfl := hheap hexhausted
      rfl

/-- The console is a real exception: a line of input that is no text is an error, and is gone. -/
theorem eq_of_step_failed_readInt :
    let m := (start {} { instructions := #[⟨.syscall, []⟩] } { input := [0xFF, 10, 65] }).setArg 0 5
    ∃ e m', m.step .standard = (.error e, m') ∧ ¬ e.fault.IsExhaustion ∧
      m' = { m with console := m'.console } ∧ m'.console.input = [65] := by
  intro m
  have herror : (m.step .standard).1 = .error (m.located ⟨.syscall, []⟩
      (.syscall 5 "read_int" (.io "stream did not contain valid UTF-8"))) := by decide +kernel
  have h : m.step .standard = (_, (m.step .standard).2) := Prod.fst_eq_iff.1 herror
  have hexhausted : ¬ Fault.IsExhaustion (.syscall 5 "read_int"
      (.io "stream did not contain valid UTF-8")) := nofun
  exact ⟨_, _, h, hexhausted, (eq_of_step_failed h).2 hexhausted, by decide +kernel⟩

end RegisterMachine.Machine
