import RegisterMachine.Service.Basic

/-!
# Steps

The meaning of every instruction. An instruction reads and checks its operands one after the other,
in the order in which it uses them, and then changes the machine.
-/

namespace RegisterMachine

inductive Flow where
  | next
  | jump (target : Nat)
  /-- The program ends with a status. -/
  | exit (status : Int32)
  deriving DecidableEq, Repr

def Instruction.operand (i : Instruction) (index : Nat) : Except Fault Operand :=
  match i.operands[index]? with
  | some o => .ok o
  | none => .error (.malformedOperand s!"missing operand {index + 1}")

def compareWords (a b : Int32) : Int32 :=
  if a < b then -1 else if a = b then 0 else 1

/-- Arithmetic on words in two's complement. Division goes toward zero, and shifts take their amount
modulo 32. -/
def compute (op : Opcode) (a b : Int32) : Except Fault Int32 :=
  match op with
  | .add => .ok (a + b)
  | .sub => .ok (a - b)
  | .mul => .ok (a * b)
  | .div => if b = 0 then .error .divisionByZero else .ok (a / b)
  | .and => .ok (a &&& b)
  | .or => .ok (a ||| b)
  | .xor => .ok (a ^^^ b)
  | .shl => .ok (a <<< b)
  | .shr => .ok (a >>> b)
  | op =>
    let name := String.ofList op.mnemonic
    .error (.malformedOperand s!"{name} is not an arithmetic opcode")

/-- Whether a conditional jump is taken at a value of the flag. -/
def isTaken (op : Opcode) (flag : Int32) : Bool :=
  match op with
  | .je => flag == 0
  | .jne => flag != 0
  | .jg => 0 < flag
  | .jl => flag < 0
  | _ => true

namespace Machine

/-- The code address that an instruction leads to; the end of the program is one. -/
def target (m : Machine) (i : Instruction) : Except Fault Nat := do
  match ← i.operand 0 with
  | .target address =>
    if address.toNat ≤ m.program.size then return address.toNat
    else throw (.invalidJumpTarget address m.program.size)
  | o => throw (.malformedOperand s!"expected a code address, got {o.typeName}")

def move (i : Instruction) : Action Machine Fault Unit := do
  let value ← (← get).read (← i.operand 1)
  write (← i.operand 0) value

def load (i : Instruction) : Action Machine Fault Unit := do
  let m ← get
  let address ← m.read (← i.operand 1)
  let value ← m.loadWord address
  write (← i.operand 0) value

def store (i : Instruction) : Action Machine Fault Unit := do
  let m ← get
  let value ← m.read (← i.operand 0)
  let address ← m.read (← i.operand 1)
  storeWord address value

def combine (i : Instruction) : Action Machine Fault Unit := do
  let m ← get
  let dest ← i.operand 0
  let a ← m.read dest
  let b ← m.read (← i.operand 1)
  write dest (← compute i.opcode a b)

def compare (i : Instruction) : Action Machine Fault Unit := do
  let m ← get
  let a ← m.read (← i.operand 0)
  let b ← m.read (← i.operand 1)
  modify fun m => m.setFlag (compareWords a b)

/-- Puts the index of a string literal in the first operand. -/
def loadString (i : Instruction) : Action Machine Fault Unit := do
  match ← i.operand 1 with
  | .string index => write (← i.operand 0) index.toInt32
  | o => throw (.malformedOperand s!"ldstr expects a string index, got {o.typeName}")

def onCalls {α : Type} (x : Action CallStack Fault α) : Action Machine Fault α :=
  x.onPart (·.calls) (fun calls m => { m with calls }) id

def jump (i : Instruction) : Action Machine Fault Flow := do
  let m ← get
  let target ← m.target i
  return if isTaken i.opcode m.flag then .jump target else .next

def enter (i : Instruction) : Action Machine Fault Flow := do
  let m ← get
  let target ← m.target i
  onCalls (CallStack.push m.pc)
  return .jump target

def leave : Action Machine Fault Flow := do
  let caller ← onCalls CallStack.pop
  return .jump (caller + 1)

def andNext (x : Action Machine Fault Unit) : Action Machine Fault Flow := do
  x
  return .next

/-- Executes an instruction that calls no service. -/
def perform (i : Instruction) : Action Machine Fault Flow :=
  match i.opcode with
  | .mov => andNext (move i)
  | .load => andNext (load i)
  | .store => andNext (store i)
  | .cmp => andNext (compare i)
  | .ldstr => andNext (loadString i)
  | .jmp | .je | .jne | .jg | .jl => jump i
  | .call => enter i
  | .ret => leave
  | _ => andNext (combine i)

def callService (r : Registry) : Action Machine Fault Flow := do
  match ← r.call ((← get).arg 0) with
  | .proceed => return .next
  | .exit status => return .exit status

def execute (r : Registry) (i : Instruction) : Action Machine Fault Flow :=
  match i.opcode with
  | .syscall => callService r
  | _ => perform i

theorem execute_of_ne_syscall {r : Registry} {i : Instruction} (h : i.opcode ≠ .syscall) :
    execute r i = perform i := by
  unfold execute
  split
  · exact absurd ‹_› h
  · rfl

/-- The error for a fault of the instruction `i` at the program counter: what the instruction is,
and which calls led to it. -/
def located (m : Machine) (i : Instruction) (fault : Fault) : RuntimeError where
  fault := fault
  place := some (i.opcode, m.pc)
  context :=
    m.program.describe m.pc ::
      m.calls.callers.map fun caller => "called from ".toList ++ m.program.describe caller

/-- Executes the next instruction. The result is the exit status if the program ends there. -/
def step (r : Registry) (m : Machine) : Except RuntimeError (Option Int32) × Machine :=
  match m.program.instructions[m.pc]? with
  | none =>
    (.error { fault := .invalidJumpTarget (UInt32.ofNat m.pc) m.program.size }, m)
  | some i =>
    let pc := m.pc
    match execute r i (m.note fun _ => .executing pc i) with
    | (.ok .next, m) => (.ok none, { m with pc := pc + 1 })
    | (.ok (.jump target), m) => (.ok none, { m with pc := target })
    | (.ok (.exit status), m) => (.ok (some status), m)
    | (.error fault, m) => (.error (m.located i fault), m)

end Machine

end RegisterMachine
