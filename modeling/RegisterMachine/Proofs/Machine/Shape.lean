import RegisterMachine.Machine.Step
import RegisterMachine.Proofs.Action

/-!
# The shape of a machine

The program, the size of memory, the program counter and the pending calls make up the shape of a
machine. Reading and writing registers and memory never changes it: that is left to the instructions
that move the program counter.
-/

namespace RegisterMachine.Machine

/-- `m'` has the shape of `m`; registers, the contents of memory and all else may differ. -/
structure SameShape (m m' : Machine) : Prop where
  program : m'.program = m.program
  size_memory : m'.memory.size = m.memory.size
  pc : m'.pc = m.pc
  calls : m'.calls = m.calls

variable {m m' m'' : Machine} {i : Instruction} {o : Operand}

theorem SameShape.refl (m : Machine) : m.SameShape m :=
  ⟨rfl, rfl, rfl, rfl⟩

theorem SameShape.trans (h : m.SameShape m') (h' : m'.SameShape m'') : m.SameShape m'' :=
  ⟨h'.program.trans h.program, h'.size_memory.trans h.size_memory, h'.pc.trans h.pc,
    h'.calls.trans h.calls⟩

theorem sameShape_of_write {value : Int32} (h : write o value m = (.ok (), m')) :
    m.SameShape m' := by
  cases o <;> simp only [write, Action.throw_apply, Prod.mk.injEq, reduceCtorEq, false_and] at h
  all_goals
    split at h
    · cases h
      exact ⟨rfl, rfl, rfl, rfl⟩
    · cases h

theorem sameShape_of_storeWord {address value : Int32}
    (h : storeWord address value m = (.ok (), m')) : m.SameShape m' := by
  simp only [storeWord, Action.get_bind, Action.lift_bind_eq_ok_iff] at h
  obtain ⟨start, -, h⟩ := h
  cases h
  exact ⟨rfl, Buffer.size_write _ _ _, rfl, rfl⟩

theorem sameShape_of_move (h : move i m = (.ok (), m')) : m.SameShape m' := by
  simp only [move, Action.get_bind, Action.lift_bind_eq_ok_iff] at h
  obtain ⟨src, -, value, -, dest, -, h⟩ := h
  exact sameShape_of_write h

theorem sameShape_of_load (h : load i m = (.ok (), m')) : m.SameShape m' := by
  simp only [load, Action.get_bind, Action.lift_bind_eq_ok_iff] at h
  obtain ⟨src, -, address, -, value, -, dest, -, h⟩ := h
  exact sameShape_of_write h

theorem sameShape_of_store (h : store i m = (.ok (), m')) : m.SameShape m' := by
  simp only [store, Action.get_bind, Action.lift_bind_eq_ok_iff] at h
  obtain ⟨src, -, value, -, dest, -, address, -, h⟩ := h
  exact sameShape_of_storeWord h

theorem sameShape_of_combine (h : combine i m = (.ok (), m')) : m.SameShape m' := by
  simp only [combine, Action.get_bind, Action.lift_bind_eq_ok_iff] at h
  obtain ⟨dest, -, a, -, src, -, b, -, value, -, h⟩ := h
  exact sameShape_of_write h

theorem sameShape_of_compare (h : compare i m = (.ok (), m')) : m.SameShape m' := by
  simp only [compare, Action.get_bind, Action.lift_bind_eq_ok_iff] at h
  obtain ⟨dest, -, a, -, src, -, b, -, h⟩ := h
  cases h
  exact ⟨rfl, rfl, rfl, rfl⟩

theorem sameShape_of_loadString (h : loadString i m = (.ok (), m')) : m.SameShape m' := by
  obtain ⟨src, -, h⟩ := Action.lift_bind_eq_ok_iff.1 h
  cases src with
  | string index =>
    obtain ⟨dest, -, h⟩ := Action.lift_bind_eq_ok_iff.1 h
    exact sameShape_of_write h
  | _ => cases h

theorem le_size_of_target {address : Nat} (h : m.target i = .ok address) :
    address ≤ m.program.size := by
  obtain ⟨src, -, h⟩ := bind_eq_ok_iff.1 h
  cases src with
  | target a =>
    dsimp only at h
    split at h
    · obtain rfl := pure_eq_ok_iff.1 h
      assumption
    · cases h
  | _ => cases h

end RegisterMachine.Machine
