import RegisterMachine.Numeric.Single

/-!
# Operands

The six kinds of operand, how a token of the source is read as one, and how one is written.
-/

namespace RegisterMachine

inductive Operand where
  | register (n : UInt8)
  /-- A register that passes arguments to the host. -/
  | syscallRegister (n : UInt8)
  | immediate (value : Int32)
  /-- A single precision immediate, as its pattern. -/
  | float (bits : UInt32)
  /-- The index of an instruction. -/
  | target (address : UInt32)
  /-- The index of a string literal. -/
  | string (index : UInt32)
  deriving DecidableEq, Repr

abbrev registerCount : Nat := 16

abbrev syscallRegisterCount : Nat := 8

/-- The zero is the one that literals of `Fin syscallRegisterCount` are read with. -/
instance instNeZeroSyscallRegisterCount : @NeZero Nat Zero.ofOfNat0 syscallRegisterCount :=
  ⟨Nat.succ_ne_zero 7⟩

inductive OperandError where
  | empty
  | register
  | syscallRegister
  | hexLiteral (cause : NumeralError)
  | floatLiteral
  | integerLiteral (cause : NumeralError)
  deriving DecidableEq, Repr

def OperandError.message : OperandError → String
  | .empty => "empty operand"
  | .register => "register must be R0..R15"
  | .syscallRegister => "syscall register must be S0..S7"
  | .hexLiteral cause => "invalid hex literal: " ++ cause.message
  | .floatLiteral => "invalid float literal: invalid float literal"
  | .integerLiteral cause => "invalid integer literal: " ++ cause.message

namespace Operand

def typeName : Operand → String
  | register _ => "register"
  | syscallRegister _ => "syscall register"
  | immediate _ => "integer immediate"
  | float _ => "float immediate"
  | target _ => "code address"
  | string _ => "string index"

/-- The 32 bits that an immediate stands for. -/
def immediateBits? : Operand → Option Int32
  | immediate value => some value
  | float bits => some bits.toInt32
  | _ => none

/-- Reads a register number below `count`: decimal digits and nothing else. -/
def index? (count : Nat) (s : Text) : Option UInt8 :=
  if s ≠ [] ∧ s.all Char.isDigit ∧ Single.digitsValue s < count then
    some (UInt8.ofNat (Single.digitsValue s))
  else none

def hexDigits? : Text → Option Text
  | '0' :: 'x' :: s => some s
  | '0' :: 'X' :: s => some s
  | _ => none

/-- Reads a literal: hexadecimal digits name the bits of a word, a point makes a float, and
anything else is a decimal integer. -/
def readImmediate (token : Text) : Except OperandError Operand :=
  let (negative, body) :=
    match token with
    | '-' :: s => (true, s)
    | s => (false, s)
  match hexDigits? body with
  | some ds =>
    match Numeral.unsigned 16 0xFFFFFFFF ds with
    | .error e => .error (.hexLiteral e)
    | .ok n =>
      let value := Int32.ofNat n
      .ok (immediate (if negative then -value else value))
  | none =>
    if '.' ∈ token then
      match Single.read? token with
      | none => .error .floatLiteral
      | some bits => .ok (float bits)
    else
      match Numeral.int32 token with
      | .error e => .error (.integerLiteral e)
      | .ok value => .ok (immediate value)

def read (token : Text) : Except OperandError Operand :=
  match token with
  | [] => .error .empty
  | c :: rest =>
    if c = 'R' ∨ c = 'r' then
      match index? registerCount rest with
      | some n => .ok (register n)
      | none => .error .register
    else if c = 'S' ∨ c = 's' then
      match index? syscallRegisterCount rest with
      | some n => .ok (syscallRegister n)
      | none => .error .syscallRegister
    else readImmediate token

/-- Float operands show that they are floats, and have an exponent below `10 ^ -4` and from `10 ^ 16`
on. -/
def floatLayout : Decimal.Layout where
  pointZero := true
  plusSign := false
  bounds := some (-3, 16)

def text : Operand → Text
  | register n => 'R' :: Numeral.ofNat n.toNat
  | syscallRegister n => 'S' :: Numeral.ofNat n.toNat
  | immediate value => Numeral.ofInt value.toInt
  | float bits => Single.text floatLayout bits
  | target address => '@' :: Numeral.ofNat address.toNat
  | string index => ['s', 't', 'r', '#'] ++ Numeral.ofNat index.toNat

end Operand

end RegisterMachine
