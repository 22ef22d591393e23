import RegisterMachine.Text.Basic

/-!
# The instruction set

Twenty-two opcodes, their mnemonics, and the shape of the operands that follow each of them.
-/

namespace RegisterMachine

inductive Opcode where
  | mov | load | store
  | add | sub | mul | div
  | and | or | xor | shl | shr
  /-- Compares two values; the result goes to the flag register. -/
  | cmp
  | jmp | je | jne | jg | jl | call | ret
  | syscall
  | ldstr
  deriving DecidableEq, Repr

/-- What stands behind a mnemonic in the source. -/
inductive OperandShape where
  | none
  | label
  | function
  /-- A destination register and a quoted literal. -/
  | stringLoad
  /-- Two registers or immediates. -/
  | pair
  deriving DecidableEq, Repr

namespace Opcode

/-- All opcodes, in the order of their numbers in a program image. -/
def all : List Opcode :=
  [mov, load, store, add, sub, mul, div, and, or, xor, shl, shr, cmp, jmp, je, jne, jg, jl, call,
   ret, syscall, ldstr]

def mnemonic : Opcode → Text
  | mov => ['m', 'o', 'v']
  | load => ['l', 'o', 'a', 'd']
  | store => ['s', 't', 'o', 'r', 'e']
  | add => ['a', 'd', 'd']
  | sub => ['s', 'u', 'b']
  | mul => ['m', 'u', 'l']
  | div => ['d', 'i', 'v']
  | and => ['a', 'n', 'd']
  | or => ['o', 'r']
  | xor => ['x', 'o', 'r']
  | shl => ['s', 'h', 'l']
  | shr => ['s', 'h', 'r']
  | cmp => ['c', 'm', 'p']
  | jmp => ['j', 'm', 'p']
  | je => ['j', 'e']
  | jne => ['j', 'n', 'e']
  | jg => ['j', 'g']
  | jl => ['j', 'l']
  | call => ['c', 'a', 'l', 'l']
  | ret => ['r', 'e', 't']
  | syscall => ['s', 'y', 's', 'c', 'a', 'l', 'l']
  | ldstr => ['l', 'd', 's', 't', 'r']

/-- The opcode with the given mnemonic, in any case. -/
def ofMnemonic? (s : Text) : Option Opcode :=
  all.find? fun op => op.mnemonic == Text.foldCase s

def shape : Opcode → OperandShape
  | ret | syscall => .none
  | jmp | je | jne | jg | jl => .label
  | call => .function
  | ldstr => .stringLoad
  | _ => .pair

def operandCount (op : Opcode) : Nat :=
  match op.shape with
  | .none => 0
  | .label | .function => 1
  | .stringLoad | .pair => 2

/-- Whether the operand is a code address. -/
def isControlFlow (op : Opcode) : Bool :=
  match op.shape with
  | .label | .function => true
  | _ => false

theorem mem_all (op : Opcode) : op ∈ all := by
  cases op <;> decide

theorem ofMnemonic?_mnemonic (op : Opcode) : ofMnemonic? op.mnemonic = some op := by
  cases op <;> decide

end Opcode

end RegisterMachine
