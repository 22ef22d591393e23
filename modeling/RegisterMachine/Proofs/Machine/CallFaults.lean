import RegisterMachine.Proofs.Machine.Step

/-!
# Faults of the call stack

Only a call fails because there is no room for one more pending call, and only a return because no
call is pending. All other instructions, and the services, fail for reasons of their own
(`Fault.IsLocal`).
-/

namespace RegisterMachine

/-- A fault that has nothing to do with the pending calls. -/
def Fault.IsLocal : Fault → Prop
  | .stackOverflow _ | .returnWithoutCall => False
  | _ => True

namespace CallStack

variable {s : CallStack} {fault : Fault}

theorem push_eq_error_iff {pc : Nat} :
    (push pc s).1 = .error fault ↔ s.capacity ≤ s.depth ∧ fault = .stackOverflow s.capacity := by
  rcases Nat.lt_or_ge s.depth s.capacity with hroom | hfull
  · simp [push_of_room hroom, Nat.not_le.2 hroom]
  · simp [push_of_full hfull, hfull, eq_comm]

theorem pop_eq_error_iff :
    (pop s).1 = .error fault ↔ s.callers = [] ∧ fault = .returnWithoutCall := by
  cases hback : s.frames.back? with
  | none =>
    simp [pop_of_empty hback, callers, Array.back?_eq_none_iff.1 hback, eq_comm]
  | some pc =>
    obtain ⟨frames, hframes⟩ := Array.back?_eq_some_iff.1 hback
    simp [pop_of_back? hback, callers, hframes]

end CallStack

theorem Instruction.failsWith_operand (i : Instruction) (index : Nat) :
    FailsWith Fault.IsLocal (i.operand index) := by
  unfold operand
  split
  · exact .ok _
  · exact .error trivial

theorem failsWith_compute (op : Opcode) (a b : Int32) :
    FailsWith Fault.IsLocal (compute op a b) := by
  unfold compute
  split
  case h_4 =>
    split
    · exact .error trivial
    · exact .ok _
  case h_10 => exact .error trivial
  all_goals exact .ok _

namespace Machine

variable (m : Machine) (i : Instruction)

theorem failsWith_read (o : Operand) : FailsWith Fault.IsLocal (m.read o) := by
  cases o <;> simp only [read]
  case register | syscallRegister =>
    split
    · exact .ok _
    · exact .error trivial
  case immediate | float => exact .ok _
  case target | string => exact .error trivial

theorem failsWith_write (o : Operand) (value : Int32) :
    FailsWith Fault.IsLocal (write o value m).1 := by
  cases o <;> simp only [write]
  case register | syscallRegister =>
    split
    · exact .ok _
    · exact .error trivial
  all_goals exact .error trivial

theorem failsWith_wordAt (address : Int32) : FailsWith Fault.IsLocal (m.wordAt address) := by
  unfold wordAt
  split
  · exact .ok _
  · exact .error trivial

theorem failsWith_target : FailsWith Fault.IsLocal (m.target i) := by
  refine (i.failsWith_operand 0).bind fun o => ?_
  cases o with
  | target address =>
    dsimp only
    split
    · exact .ok _
    · exact .error trivial
  | _ => exact .error trivial

theorem failsWith_move : FailsWith Fault.IsLocal (move i m).1 := by
  refine (i.failsWith_operand 1).lift_bind fun src => ?_
  refine (m.failsWith_read src).lift_bind fun value => ?_
  refine (i.failsWith_operand 0).lift_bind fun dest => ?_
  exact m.failsWith_write dest value

theorem failsWith_load : FailsWith Fault.IsLocal (load i m).1 := by
  refine (i.failsWith_operand 1).lift_bind fun src => ?_
  refine (m.failsWith_read src).lift_bind fun address => ?_
  refine ((m.failsWith_wordAt address).bind fun _ => .ok _).lift_bind fun value => ?_
  refine (i.failsWith_operand 0).lift_bind fun dest => ?_
  exact m.failsWith_write dest value

theorem failsWith_store : FailsWith Fault.IsLocal (store i m).1 := by
  refine (i.failsWith_operand 0).lift_bind fun src => ?_
  refine (m.failsWith_read src).lift_bind fun value => ?_
  refine (i.failsWith_operand 1).lift_bind fun dest => ?_
  refine (m.failsWith_read dest).lift_bind fun address => ?_
  exact (m.failsWith_wordAt address).lift_bind fun _ => .ok _

theorem failsWith_combine : FailsWith Fault.IsLocal (combine i m).1 := by
  refine (i.failsWith_operand 0).lift_bind fun dest => ?_
  refine (m.failsWith_read dest).lift_bind fun a => ?_
  refine (i.failsWith_operand 1).lift_bind fun src => ?_
  refine (m.failsWith_read src).lift_bind fun b => ?_
  refine (failsWith_compute i.opcode a b).lift_bind fun value => ?_
  exact m.failsWith_write dest value

theorem failsWith_compare : FailsWith Fault.IsLocal (compare i m).1 := by
  refine (i.failsWith_operand 0).lift_bind fun dest => ?_
  refine (m.failsWith_read dest).lift_bind fun a => ?_
  refine (i.failsWith_operand 1).lift_bind fun src => ?_
  exact (m.failsWith_read src).lift_bind fun b => .ok _

theorem failsWith_loadString : FailsWith Fault.IsLocal (loadString i m).1 := by
  refine (i.failsWith_operand 1).lift_bind fun src => ?_
  cases src with
  | string index => exact (i.failsWith_operand 0).lift_bind fun dest => m.failsWith_write dest _
  | _ => exact .error trivial

theorem failsWith_jump : FailsWith Fault.IsLocal (jump i m).1 :=
  (m.failsWith_target i).lift_bind fun _ => .ok _

/-- How an instruction that fails is connected to the pending calls. -/
inductive FailsOnCalls (m : Machine) (i : Instruction) (fault : Fault) : Prop
  | call (hop : i.opcode = .call) (h : (CallStack.push m.pc m.calls).1 = .error fault)
  | ret (hop : i.opcode = .ret) (h : (CallStack.pop m.calls).1 = .error fault)
  | isLocal (h : fault.IsLocal)

variable {m i} {fault : Fault} {m' : Machine}

theorem failsOnCalls_of_enter (hop : i.opcode = .call) (h : enter i m = (.error fault, m')) :
    m.FailsOnCalls i fault := by
  simp only [enter, Action.get_bind] at h
  rcases Action.lift_bind_eq_error_iff.1 h with ⟨h, -⟩ | ⟨target, -, h⟩
  · exact .isLocal (m.failsWith_target i fault h)
  rcases Action.bind_eq_error_iff.1 h with h | ⟨_, m₁, -, h⟩
  · obtain ⟨_, calls, hpush, rfl, -⟩ := Action.onPart_eq_error_iff.1 h
    exact .call hop (congrArg Prod.fst hpush)
  · cases h

theorem failsOnCalls_of_leave (hop : i.opcode = .ret) (h : leave m = (.error fault, m')) :
    m.FailsOnCalls i fault := by
  rcases Action.bind_eq_error_iff.1 h with h | ⟨_, m₁, -, h⟩
  · obtain ⟨_, calls, hpop, rfl, -⟩ := Action.onPart_eq_error_iff.1 h
    exact .ret hop (congrArg Prod.fst hpop)
  · cases h

theorem failsOnCalls_of_perform (h : perform i m = (.error fault, m')) :
    m.FailsOnCalls i fault := by
  have next {x : Action Machine Fault Unit} (hx : FailsWith Fault.IsLocal (x m).1) :
      FailsWith Fault.IsLocal (andNext x m).1 := hx.bind_action fun _ _ => .ok _
  have hfail := congrArg Prod.fst h
  unfold perform at h hfail
  cases hop : i.opcode <;> simp only [hop] at h hfail
  case mov => exact .isLocal (next (m.failsWith_move i) fault hfail)
  case load => exact .isLocal (next (m.failsWith_load i) fault hfail)
  case store => exact .isLocal (next (m.failsWith_store i) fault hfail)
  case cmp => exact .isLocal (next (m.failsWith_compare i) fault hfail)
  case ldstr => exact .isLocal (next (m.failsWith_loadString i) fault hfail)
  case jmp | je | jne | jg | jl => exact .isLocal (m.failsWith_jump i fault hfail)
  case call => exact failsOnCalls_of_enter hop h
  case ret => exact failsOnCalls_of_leave hop h
  all_goals exact .isLocal (next (m.failsWith_combine i) fault hfail)

theorem failsWith_call (r : Registry) (id : Int32) (m : Machine) :
    FailsWith Fault.IsLocal (r.call id m).1 := by
  unfold Registry.call
  split
  · exact .error trivial
  · split
    · exact .ok _
    · exact .error trivial

theorem failsOnCalls_of_execute {r : Registry} (h : execute r i m = (.error fault, m')) :
    m.FailsOnCalls i fault := by
  by_cases hop : i.opcode = .syscall
  · simp only [execute, hop, callService, Action.get_bind] at h
    rcases Action.bind_eq_error_iff.1 h with h | ⟨outcome, m₁, -, h⟩
    · exact .isLocal (failsWith_call r _ m fault (congrArg Prod.fst h))
    · cases outcome <;> cases h
  · rw [execute_of_ne_syscall hop] at h
    exact failsOnCalls_of_perform h

theorem failsOnCalls_of_step {r : Registry} {e : RuntimeError}
    (hi : m.program.instructions[m.pc]? = some i) (h : m.step r = (.error e, m')) :
    m.FailsOnCalls i e.fault := by
  simp only [step, hi] at h
  split at h <;> rename_i heq <;> cases h
  -- The event that is recorded first leaves the program counter and the calls as they are.
  cases failsOnCalls_of_execute heq with
  | call hop h => exact .call hop h
  | ret hop h => exact .ret hop h
  | isLocal h => exact .isLocal h

/-- A return without a call is a return where no call is pending. -/
theorem FailsOnCalls.ret_of_returnWithoutCall (h : m.FailsOnCalls i .returnWithoutCall) :
    i.opcode = .ret ∧ m.calls.callers = [] := by
  cases h with
  | call hop h => cases (CallStack.push_eq_error_iff.1 h).2
  | ret hop h => exact ⟨hop, (CallStack.pop_eq_error_iff.1 h).1⟩
  | isLocal h => exact h.elim

/-- The call stack overflows where a call finds no room. -/
theorem FailsOnCalls.call_of_stackOverflow {capacity : Nat}
    (h : m.FailsOnCalls i (.stackOverflow capacity)) :
    i.opcode = .call ∧ capacity = m.calls.capacity ∧ m.calls.capacity ≤ m.calls.depth := by
  cases h with
  | call hop h =>
    obtain ⟨hle, heq⟩ := CallStack.push_eq_error_iff.1 h
    exact ⟨hop, Fault.stackOverflow.inj heq, hle⟩
  | ret hop h => cases (CallStack.pop_eq_error_iff.1 h).2
  | isLocal h => exact h.elim

end Machine

end RegisterMachine
