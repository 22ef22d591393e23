import RegisterMachine.Machine.Step
import RegisterMachine.Proofs.Action
import RegisterMachine.Proofs.Program.WellFormed

/-!
# Faults of well-formed instructions

An instruction can fail because of its form or because of the values that it meets. A well-formed
one fails only for the second reason.
-/

namespace RegisterMachine

/-- A fault of the form of an instruction: an operand of the wrong kind, a register that machines do
not have, or a code address outside of the program. -/
def Fault.IsIllFormed : Fault → Prop
  | .malformedOperand _ | .invalidRegister _ | .invalidJumpTarget _ _ => True
  | _ => False

/-- If `x` fails, then because of the values that it meets. -/
abbrev FailsOnValues {α : Type} (x : Except Fault α) : Prop :=
  FailsWith (¬ ·.IsIllFormed) x

theorem CallStack.failsOnValues_push (s : CallStack) (pc : Nat) : FailsOnValues (push pc s).1 := by
  rcases Nat.lt_or_ge s.depth s.capacity with hroom | hfull
  · rw [push_of_room hroom]
    exact .ok _
  · rw [push_of_full hfull]
    exact .error not_false

theorem CallStack.failsOnValues_pop (s : CallStack) : FailsOnValues (pop s).1 := by
  cases hback : s.frames.back? with
  | none =>
    rw [pop_of_empty hback]
    exact .error not_false
  | some pc =>
    rw [pop_of_back? hback]
    exact .ok _

theorem failsOnValues_compute {op : Opcode}
    (hop : op ∈ [.add, .sub, .mul, .div, .and, .or, .xor, .shl, .shr]) (a b : Int32) :
    FailsOnValues (compute op a b) := by
  cases op with
  | add | sub | mul | and | or | xor | shl | shr => exact .ok _
  | div =>
    show FailsOnValues (if b = 0 then _ else _)
    split
    · exact .error not_false
    · exact .ok _
  | _ => simp at hop

namespace Machine

variable {o : Operand} (m : Machine)

theorem failsOnValues_read (h : o.IsSource) : FailsOnValues (m.read o) := by
  cases o with
  | register n | syscallRegister n =>
    simp only [read, dif_pos (show _ < _ from h)]
    exact .ok _
  | immediate value | float bits => exact .ok _
  | target address | string index => exact h.elim

theorem failsOnValues_write (h : o.IsRegister) (value : Int32) :
    FailsOnValues (write o value m).1 := by
  cases o with
  | register n | syscallRegister n =>
    simp only [write, dif_pos (show _ < _ from h)]
    exact .ok _
  | _ => exact h.elim

theorem failsOnValues_wordAt (address : Int32) : FailsOnValues (m.wordAt address) := by
  unfold wordAt
  split
  · exact .ok _
  · exact .error not_false

theorem failsOnValues_loadWord (address : Int32) : FailsOnValues (m.loadWord address) :=
  (m.failsOnValues_wordAt address).bind fun _ => .ok _

theorem failsOnValues_storeWord (address value : Int32) :
    FailsOnValues (storeWord address value m).1 :=
  (m.failsOnValues_wordAt address).lift_bind fun _ => .ok _

theorem failsOnValues_target {op : Opcode} {address : UInt32} (h : address.toNat ≤ m.program.size) :
    FailsOnValues (m.target ⟨op, [.target address]⟩) := by
  show FailsOnValues (if address.toNat ≤ m.program.size then _ else _)
  rw [if_pos h]
  exact .ok _

theorem failsOnValues_combine {op : Opcode} {dest src : Operand} (hd : dest.IsGeneral)
    (hs : src.IsSource) (hop : op ∈ [.add, .sub, .mul, .div, .and, .or, .xor, .shl, .shr]) :
    FailsOnValues (combine ⟨op, [dest, src]⟩ m).1 := by
  refine (m.failsOnValues_read hd.isRegister.isSource).lift_bind fun a => ?_
  refine (m.failsOnValues_read hs).lift_bind fun b => ?_
  refine (failsOnValues_compute hop a b).lift_bind fun value => ?_
  exact m.failsOnValues_write hd.isRegister value

variable {m} in
theorem failsOnValues_onCalls {α : Type} {x : Action CallStack Fault α}
    (hx : FailsOnValues (x m.calls).1) : FailsOnValues (onCalls x m).1 := by
  intro fault h
  obtain ⟨e, calls, hfail, rfl, -⟩ := Action.onPart_eq_error_iff.1 (Prod.ext h rfl)
  exact hx e (congrArg Prod.fst hfail)

theorem failsOnValues_perform {i : Instruction} (hi : i.WellFormed m.program)
    (hservice : i.opcode ≠ .syscall) : FailsOnValues (perform i m).1 := by
  have next {x : Action Machine Fault Unit} (hx : FailsOnValues (x m).1) :
      FailsOnValues (andNext x m).1 := hx.bind_action fun _ _ => .ok _
  cases hi with
  | @plain op hop =>
    cases op with
    | ret => exact (failsOnValues_onCalls m.calls.failsOnValues_pop).bind_action fun _ _ => .ok _
    | syscall => exact absurd rfl hservice
    | _ => simp at hop
  | @jump op address hop ha =>
    have ht : FailsOnValues (m.target ⟨op, [.target address]⟩) := m.failsOnValues_target ha
    cases op with
    | jmp | je | jne | jg | jl => exact ht.lift_bind fun _ => .ok _
    | call =>
      refine ht.lift_bind fun _ => ?_
      exact (failsOnValues_onCalls (m.calls.failsOnValues_push m.pc)).bind_action fun _ _ => .ok _
    | _ => simp at hop
  | loadString hd => exact next (m.failsOnValues_write hd.isRegister _)
  | move hd hs => exact next ((m.failsOnValues_read hs).lift_bind (m.failsOnValues_write hd))
  | @access op dest src hop hd hs =>
    have hdest := m.failsOnValues_read hd.isRegister.isSource
    have hsrc := m.failsOnValues_read hs.isRegister.isSource
    cases op with
    | load =>
      refine next (hsrc.lift_bind fun address => ?_)
      refine (m.failsOnValues_loadWord address).lift_bind fun value => ?_
      exact m.failsOnValues_write hd.isRegister value
    | store =>
      refine next (hdest.lift_bind fun value => hsrc.lift_bind fun address => ?_)
      exact m.failsOnValues_storeWord address value
    | _ => simp at hop
  | @combine op dest src hop hd hs =>
    have hdest := m.failsOnValues_read hd.isRegister.isSource
    cases op with
    | cmp =>
      exact next (hdest.lift_bind fun a => (m.failsOnValues_read hs).lift_bind fun b => .ok _)
    | add | sub | mul | div | and | or | xor | shl | shr =>
      exact next (m.failsOnValues_combine hd hs (by simp))
    | _ => simp at hop

theorem failsOnValues_call (r : Registry) (id : Int32) : FailsOnValues (r.call id m).1 := by
  unfold Registry.call
  split
  · exact .error not_false
  · split
    · exact .ok _
    · exact .error not_false

theorem failsOnValues_execute (r : Registry) {i : Instruction} (hi : i.WellFormed m.program) :
    FailsOnValues (execute r i m).1 := by
  by_cases hop : i.opcode = .syscall
  · simp only [execute, hop, callService, Action.get_bind]
    refine FailsWith.bind_action (m.failsOnValues_call r (m.arg 0)) fun outcome m' => ?_
    cases outcome <;> exact .ok _
  · rw [execute_of_ne_syscall hop]
    exact m.failsOnValues_perform hi hop

variable {m} in
/-- A step at a well-formed instruction fails, if at all, because of the values that it meets. -/
theorem not_isIllFormed_of_step_failed {r : Registry} {m' : Machine} {i : Instruction}
    {e : RuntimeError} (hi : m.program.instructions[m.pc]? = some i) (hw : i.WellFormed m.program)
    (h : m.step r = (.error e, m')) : ¬ e.fault.IsIllFormed := by
  have hexecute := (m.note fun _ => .executing m.pc i).failsOnValues_execute r hw
  simp only [step, hi] at h
  split at h <;> rename_i heq <;> cases h
  rw [heq] at hexecute
  exact hexecute _ rfl

end Machine

end RegisterMachine
