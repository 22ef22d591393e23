import RegisterMachine.Numeric.Binary
import RegisterMachine.Program.Basic
import RegisterMachine.Text.Escaped

/-!
# Listings

A listing shows a linked program line by line: headers for functions, marks for labels, and every
instruction with its address, the names behind its code addresses and the text of its literals.
`Program.listing` selects the lines and `ListingLine.rows` writes them.
-/

namespace RegisterMachine

inductive ListingLine where
  | functionHeader (name : Text)
  | labelMark (name : Text)
  /-- An instruction; `isTarget` holds if some jump or call leads to it. -/
  | instruction (pc : Nat) (isTarget : Bool) (i : Instruction)
  /-- A label behind the last instruction. -/
  | endLabel (name : Text)
  deriving DecidableEq, Repr

namespace Program

def jumpTargets (p : Program) : List UInt32 :=
  (p.instructions.toList.filter (·.opcode.isControlFlow)).flatMap fun i =>
    i.operands.filterMap fun
      | .target address => some address
      | _ => none

/-- The function that starts at an address; of several, the last one. -/
def functionAt? (p : Program) (address : UInt32) : Option Symbol :=
  p.functions.toList.reverse.find? (·.address == address)

def labelsAt (p : Program) (address : UInt32) : List Symbol :=
  p.labels.toList.filter (·.address == address)

/-- The lines of the instruction at `pc`: what is declared there, then the instruction. -/
def listingAt (p : Program) (targets : List UInt32) (pc : Nat) (i : Instruction) :
    List ListingLine :=
  let address := UInt32.ofNat pc
  (p.functionAt? address).toList.map (.functionHeader ·.name) ++
    (p.labelsAt address).map (.labelMark ·.name) ++
      [.instruction pc (address ∈ targets) i]

def listing (p : Program) : List ListingLine :=
  let targets := p.jumpTargets
  p.instructions.toList.zipIdx.flatMap (fun (i, pc) => p.listingAt targets pc i) ++
    (p.labelsAt (UInt32.ofNat p.size)).map (.endLabel ·.name)

/-- An operand with the name or the literal that it refers to. -/
def operandText (p : Program) : Operand → Text
  | .target address =>
    let arrow := '→' :: ' ' :: Numeral.padded 4 address.toNat
    match p.symbolAt? address with
    | some name => name ++ ' ' :: '(' :: (arrow ++ [')'])
    | none => arrow
  | .string index =>
    let number := Operand.text (.string index)
    match p.strings[index.toNat]? with
    | some literal => number ++ ' ' :: Text.escaped literal
    | none => number ++ ' ' :: ['<', 'm', 'i', 's', 's', 'i', 'n', 'g', '>']
  | operand => operand.text

/-- An instruction with its mnemonic in capitals, padded to a column. -/
def instructionText (p : Program) (i : Instruction) : Text :=
  Text.trimEnd
    (Text.padEnd 8 (Text.upperCase i.opcode.mnemonic) ++
      Text.join [',', ' '] (i.operands.map p.operandText))

end Program

/-- The rows that the line is printed in: three for a header, one for any other line. -/
def ListingLine.rows (p : Program) : ListingLine → List Text
  | functionHeader name =>
    let rule := List.replicate 40 '═'
    [rule, " function ".toList ++ name, rule]
  | labelMark name => ["      ┌─── ".toList ++ name ++ [':']]
  | instruction pc isTarget i =>
    let mark := if isTarget then '►' else ' '
    [Numeral.padded 4 pc ++ ' ' :: mark :: ' ' :: p.instructionText i]
  | endLabel name => ["      └─── ".toList ++ name ++ ": (end)".toList]

def Program.listingText (p : Program) : Text :=
  Text.unlines (p.listing.flatMap (·.rows p))

namespace Program

def opcodeCount (p : Program) (op : Opcode) : Nat :=
  p.instructions.toList.countP (·.opcode == op)

/-- The opcodes that occur, with their numbers: the most frequent first, and of equally frequent
ones in alphabetical order. -/
def opcodeCounts (p : Program) : List (Opcode × Nat) :=
  let counts := (Opcode.all.map fun op => (op, p.opcodeCount op)).filter (0 < ·.2)
  counts.mergeSort fun a b => b.2 < a.2 || b.2 == a.2 && !List.lex b.1.mnemonic a.1.mnemonic

def frequencyRow (p : Program) (op : Opcode) (count : Nat) : Text :=
  let tenths := shareInTenths count p.size
  let share := Numeral.ofNat (tenths / 10) ++ '.' :: Numeral.ofNat (tenths % 10)
  ' ' :: ' ' :: Text.padEnd 10 op.mnemonic ++ ' ' :: Text.padStart ' ' 4 (Numeral.ofNat count) ++
    ' ' :: '(' :: Text.padStart ' ' 5 share ++ ['%', ')']

def statisticsText (p : Program) : Text :=
  let sizes :=
    s!"=== PROGRAM STATISTICS ===\n\nInstructions: {p.size}\nFunctions:    {p.functions.size}\n" ++
      s!"Labels:       {p.labels.size}\nStrings:      {p.strings.size}\n\n"
  let rows := (p.opcodeCounts.take 10).map fun (op, count) => p.frequencyRow op count
  sizes.toList ++
    (if rows.isEmpty then [] else Text.unlines ("Opcode frequency:".toList :: rows))

def reportText (p : Program) : Text :=
  "=== PROGRAM ===\n\n".toList ++ p.listingText ++ '\n' :: p.statisticsText

end Program

end RegisterMachine
