import RegisterMachine.Machine.Heap
import RegisterMachine.Machine.Variables
import RegisterMachine.Program.Basic

/-!
# Faults

Why a machine stops before its program ends. A service fails with a `ServiceError`, an instruction
with a `Fault`; a `RuntimeError` adds the place of the instruction and the calls that led to it.
-/

namespace RegisterMachine

inductive ServiceError where
  | alloc (cause : AllocError)
  | scope (cause : ScopeError)
  | io (message : String)
  | badString (index : Int32)
  /-- A range of memory is out of bounds. -/
  | memory (address len : Int32)
  deriving DecidableEq, Repr

def ServiceError.message : ServiceError → String
  | .alloc cause => cause.message
  | .scope cause => cause.message
  | .io message => "I/O error: " ++ message
  | .badString index => s!"no string literal with index {index.toInt}"
  | .memory address len =>
    s!"memory range of {len.toInt} byte(s) at address {address.toInt} is out of bounds"

inductive Fault where
  | divisionByZero
  | memoryOutOfRange (address : Int) (len memorySize : Nat)
  | stackOverflow (capacity : Nat)
  | returnWithoutCall
  | unknownSyscall (id : Int32)
  | invalidJumpTarget (target : UInt32) (programSize : Nat)
  /-- An operand of the wrong kind for its position, or none at all. -/
  | malformedOperand (message : String)
  | invalidRegister (name : String)
  | syscall (id : Int32) (name : String) (cause : ServiceError)
  | output (message : String)
  deriving DecidableEq, Repr

def Fault.message : Fault → String
  | .divisionByZero => "division by zero"
  | .memoryOutOfRange address len memorySize =>
    s!"memory access out of range: {len} byte(s) at address {address} (memory size {memorySize})"
  | .stackOverflow capacity => s!"stack overflow (call stack capacity {capacity})"
  | .returnWithoutCall => "return without call"
  | .unknownSyscall id => s!"unknown syscall id {id.toInt}"
  | .invalidJumpTarget target programSize =>
    s!"invalid jump target {target.toNat} (program has {programSize} instruction(s))"
  | .malformedOperand message => "malformed operand: " ++ message
  | .invalidRegister name => "invalid register " ++ name
  | .syscall id name cause => s!"syscall {id.toInt} ({name}) failed: {cause.message}"
  | .output message => "cannot write program output: " ++ message

structure RuntimeError where
  fault : Fault
  /-- The opcode of the failing instruction and its address. -/
  place : Option (Opcode × Nat) := none
  /-- The failing instruction and the calls around it, innermost first. -/
  context : List Text := []
  deriving DecidableEq, Repr

def RuntimeError.message (e : RuntimeError) : String :=
  let place :=
    match e.place with
    | some (op, pc) =>
      s!" in '{String.ofList op.mnemonic}' at {String.ofList (Numeral.padded 4 pc)}"
    | none => ""
  let frames := e.context.map fun frame => s!"\n  at {String.ofList frame}"
  s!"runtime error{place}: {e.fault.message}" ++ String.join frames

end RegisterMachine
