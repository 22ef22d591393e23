import RegisterMachine.Machine.CallStack
import RegisterMachine.Machine.Console

/-!
# The machine

The state of a running program, and the access to registers and memory that instructions are made
of. Reading is a function of the machine, and writing an action on it.
-/

namespace RegisterMachine

structure Config where
  /-- The bytes of memory. -/
  memorySize : Nat := 64 * 1024 * 1024
  callDepth : Nat := 1024
  discipline : Discipline := .blocks
  deriving DecidableEq, Repr

/-- Everything that a running program can observe or change. -/
structure Machine where
  program : Program
  registers : Vector Int32 registerCount
  /-- The registers that pass arguments to the host. -/
  syscallRegisters : Vector Int32 syscallRegisterCount
  memory : Buffer UInt8
  /-- The index of the next instruction. -/
  pc : Nat
  calls : CallStack
  heap : Heap
  scopes : NamedScopes
  frames : StackScopes
  console : Console

namespace Machine

def start (config : Config) (p : Program) (console : Console) : Machine where
  program := p
  registers := .replicate _ 0
  syscallRegisters := .replicate _ 0
  memory := .zeros config.memorySize
  pc := 0
  calls := { capacity := config.callDepth }
  heap := .empty config.discipline
  scopes := []
  frames := []
  console := console

/-- The value of an operand; a float stands for the bits of its pattern. -/
def read (m : Machine) (o : Operand) : Except Fault Int32 :=
  match o with
  | .register n =>
    if h : n.toNat < registerCount then .ok m.registers[n.toNat]
    else .error (.invalidRegister (String.ofList o.text))
  | .syscallRegister n =>
    if h : n.toNat < syscallRegisterCount then .ok m.syscallRegisters[n.toNat]
    else .error (.invalidRegister (String.ofList o.text))
  | .immediate value => .ok value
  | .float bits => .ok bits.toInt32
  | .target _ | .string _ =>
    .error (.malformedOperand s!"{o.typeName} cannot be read as a value")

def write (o : Operand) (value : Int32) : Action Machine Fault Unit :=
  match o with
  | .register n =>
    if h : n.toNat < registerCount then
      modify fun m => { m with registers := m.registers.set n.toNat value }
    else throw (.invalidRegister (String.ofList o.text))
  | .syscallRegister n =>
    if h : n.toNat < syscallRegisterCount then
      modify fun m => { m with syscallRegisters := m.syscallRegisters.set n.toNat value }
    else throw (.invalidRegister (String.ofList o.text))
  | _ =>
    let text := String.ofList o.text
    throw (.malformedOperand s!"{text} is not a writable register")

/-- The number of the register that holds the result of the last comparison. -/
def flagRegister : Fin registerCount := 15

def flag (m : Machine) : Int32 :=
  m.registers[flagRegister]

def setFlag (m : Machine) (value : Int32) : Machine :=
  { m with registers := m.registers.set flagRegister value }

def arg (m : Machine) (n : Fin syscallRegisterCount) : Int32 :=
  m.syscallRegisters[n]

def setArg (m : Machine) (n : Fin syscallRegisterCount) (value : Int32) : Machine :=
  { m with syscallRegisters := m.syscallRegisters.set n value }

/-- The start of the `len` bytes from an address on, if all of them lie in memory. -/
def range? (m : Machine) (address : Int32) (len : Nat) : Option Nat :=
  (Word.index? address).filter fun start => start + len ≤ m.memory.size

/-- The start of the word at an address. -/
def wordAt (m : Machine) (address : Int32) : Except Fault Nat :=
  match m.range? address 4 with
  | some start => .ok start
  | none => .error (.memoryOutOfRange address.toInt 4 m.memory.size)

def loadWord (m : Machine) (address : Int32) : Except Fault Int32 := do
  let i ← m.wordAt address
  return (Word.ofBytes (m.memory.get i) (m.memory.get (i + 1)) (m.memory.get (i + 2))
    (m.memory.get (i + 3))).toInt32

def storeWord (address value : Int32) : Action Machine Fault Unit := do
  let i ← (← get).wordAt address
  modify fun m => { m with memory := m.memory.write i (Word.toBytes value.toUInt32) }

def note (m : Machine) (event : Unit → Event) : Machine :=
  { m with console := m.console.note event }

end Machine

end RegisterMachine
