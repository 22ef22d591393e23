import RegisterMachine.Numeric.Word
import RegisterMachine.Program.Opcode
import RegisterMachine.Program.Operand

/-!
# Programs

A linked program: its instructions, the symbols and string literals they refer to, and for each
instruction the place in the source it came from.
-/

namespace RegisterMachine

structure Instruction where
  opcode : Opcode
  operands : List Operand
  deriving DecidableEq, Repr

def Instruction.text (i : Instruction) : Text :=
  match i.operands with
  | [] => i.opcode.mnemonic
  | ops => i.opcode.mnemonic ++ ' ' :: Text.join [',', ' '] (ops.map Operand.text)

/-- The kinds of name that a source file can declare or use. -/
inductive SymbolKind where
  | function
  | label
  | string
  deriving DecidableEq, Repr

def SymbolKind.name : SymbolKind → String
  | function => "function"
  | label => "label"
  | string => "string"

/-- A function or label with the index of the instruction that follows its declaration. -/
structure Symbol where
  name : Text
  address : UInt32
  deriving DecidableEq, Repr

structure SourceLocation where
  file : Text
  /-- The line in the file as it was written, counted from one. -/
  line : Nat
  text : Text
  deriving DecidableEq, Repr

def SourceLocation.describe (l : SourceLocation) : Text :=
  l.file ++ ':' :: (Numeral.ofNat l.line ++ ':' :: ' ' :: l.text)

structure Program where
  instructions : Array Instruction := #[]
  functions : Array Symbol := #[]
  labels : Array Symbol := #[]
  strings : Array Text := #[]
  /-- The place of each instruction; a program built by hand may have fewer or more. -/
  locations : Array SourceLocation := #[]
  deriving DecidableEq, Repr

namespace Program

def size (p : Program) : Nat :=
  p.instructions.size

def isEmpty (p : Program) : Bool :=
  p.instructions.isEmpty

/-- The name of the symbol at an address: the first function there, else the first label. -/
def symbolAt? (p : Program) (address : UInt32) : Option Text :=
  ((p.functions.toList ++ p.labels.toList).find? (·.address == address)).map (·.name)

def literal? (p : Program) (index : Int32) : Option Text :=
  (Word.index? index).bind (p.strings[·]?)

/-- How an error report names the instruction at `pc`: by its place in the source if that is known,
else by its address. -/
def describe (p : Program) (pc : Nat) : Text :=
  match p.locations[pc]?, p.instructions[pc]? with
  | some l, _ => l.describe
  | none, some i => Numeral.padded 4 pc ++ ':' :: ' ' :: i.text
  | none, none => Numeral.padded 4 pc

end Program

end RegisterMachine
