import RegisterMachine.Program.Basic

/-!
# Well-formed programs

The operands that each opcode can work with in a given program. An image can hold any instruction;
those that the assembler makes are well formed.
-/

namespace RegisterMachine

namespace Operand

/-- A general register that machines have. -/
def IsGeneral : Operand → Prop
  | register n => n.toNat < registerCount
  | _ => False

/-- A register of either kind that machines have. -/
def IsRegister : Operand → Prop
  | register n => n.toNat < registerCount
  | syscallRegister n => n.toNat < syscallRegisterCount
  | _ => False

/-- An operand that has a value: a register that machines have, or an immediate. -/
def IsSource : Operand → Prop
  | register n => n.toNat < registerCount
  | syscallRegister n => n.toNat < syscallRegisterCount
  | immediate _ | float _ => True
  | _ => False

variable {o : Operand}

theorem IsGeneral.isRegister (h : o.IsGeneral) : o.IsRegister := by
  cases o with
  | register n => exact h
  | _ => exact h.elim

theorem IsRegister.isSource (h : o.IsRegister) : o.IsSource := by
  cases o with
  | register n | syscallRegister n => exact h
  | _ => exact h.elim

end Operand

/-- An instruction with operands that suit its opcode and refer to something that `p` has. The end
of the program is a valid code address. -/
inductive Instruction.WellFormed (p : Program) : Instruction → Prop
  | plain {op : Opcode} (hop : op ∈ [.ret, .syscall]) : WellFormed p ⟨op, []⟩
  | jump {op : Opcode} {address : UInt32} (hop : op ∈ [.jmp, .je, .jne, .jg, .jl, .call])
    (ha : address.toNat ≤ p.size) : WellFormed p ⟨op, [.target address]⟩
  | loadString {dest : Operand} {index : UInt32} (hd : dest.IsGeneral)
    (hi : index.toNat < p.strings.size) : WellFormed p ⟨.ldstr, [dest, .string index]⟩
  | move {dest src : Operand} (hd : dest.IsRegister) (hs : src.IsSource) :
    WellFormed p ⟨.mov, [dest, src]⟩
  | access {op : Opcode} {dest src : Operand} (hop : op ∈ [.load, .store]) (hd : dest.IsGeneral)
    (hs : src.IsGeneral) : WellFormed p ⟨op, [dest, src]⟩
  | combine {op : Opcode} {dest src : Operand}
    (hop : op ∈ [.add, .sub, .mul, .div, .and, .or, .xor, .shl, .shr, .cmp]) (hd : dest.IsGeneral)
    (hs : src.IsSource) : WellFormed p ⟨op, [dest, src]⟩

/-- A program whose tables agree: every instruction is well formed and has a place in the source,
and every symbol stands for an instruction or for the end of the program. -/
structure Program.WellFormed (p : Program) : Prop where
  locations : p.locations.size = p.size
  functions : ∀ s ∈ p.functions, s.address.toNat ≤ p.size
  labels : ∀ s ∈ p.labels, s.address.toNat ≤ p.size
  instructions : ∀ i ∈ p.instructions, i.WellFormed p

end RegisterMachine
