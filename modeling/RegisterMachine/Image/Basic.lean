import RegisterMachine.Image.Codec
import RegisterMachine.Program.Basic

/-!
# Program images

The form in which a linked program is kept in a file: a signature, the version of the format, and
the tables of the program. What follows the tables is ignored.
-/

namespace RegisterMachine

/-- Why bytes are no program image. -/
inductive ImageError where
  | badSignature
  | unsupportedVersion (version : UInt8)
  /-- The bytes end within the signature or right behind it. -/
  | truncated
  | decode (cause : DecodeError)
  deriving DecidableEq, Repr

namespace Image

/-- The bytes that every image starts with: the letters CINDERIM. -/
def signature : List UInt8 :=
  [0x43, 0x49, 0x4E, 0x44, 0x45, 0x52, 0x49, 0x4D]

def version : UInt8 := 1

end Image

def ImageError.message : ImageError → String
  | .badSignature => "not a program image (bad signature)"
  | .unsupportedVersion v =>
    s!"unsupported image version {v.toNat} (expected {Image.version.toNat})"
  | .truncated => "program image is truncated"
  | .decode cause => "failed to decode program image: " ++ cause.message

namespace Codec

def opcode : Codec Opcode :=
  enumeration Opcode.all

/-- The index of the kind of operand, and its value. -/
def operand : Codec Operand where
  write
    | .register n => writeGroups 0 ++ byte.write n
    | .syscallRegister n => writeGroups 1 ++ byte.write n
    | .immediate value => writeGroups 2 ++ int.write value
    | .float bits => writeGroups 3 ++ pattern.write bits
    | .target address => writeGroups 4 ++ word.write address
    | .string index => writeGroups 5 ++ word.write index
  read := do
    match (← word.read).toNat with
    | 0 => return .register (← byte.read)
    | 1 => return .syscallRegister (← byte.read)
    | 2 => return .immediate (← int.read)
    | 3 => return .float (← pattern.read)
    | 4 => return .target (← word.read)
    | 5 => return .string (← word.read)
    | _ => throw .unknownVariant

def instruction : Codec Instruction :=
  (opcode.pair operand.list).map (fun i => (i.opcode, i.operands)) fun (op, operands) =>
    ⟨op, operands⟩

def symbol : Codec Symbol :=
  (text.pair word).map (fun s => (s.name, s.address)) fun (name, address) => ⟨name, address⟩

def location : Codec SourceLocation :=
  (text.pair (size.pair text)).map (fun l => (l.file, l.line, l.text)) fun (file, line, text) =>
    ⟨file, line, text⟩

/-- The tables of a program, in order. -/
def program : Codec Program :=
  (instruction.list.pair (symbol.list.pair (symbol.list.pair (text.list.pair location.list)))).map
    (fun p =>
      (p.instructions.toList, p.functions.toList, p.labels.toList, p.strings.toList,
        p.locations.toList))
    fun (instructions, functions, labels, strings, locations) =>
      ⟨instructions.toArray, functions.toArray, labels.toArray, strings.toArray,
        locations.toArray⟩

end Codec

namespace Image

def encode (p : Program) : List UInt8 :=
  signature ++ version :: Codec.program.write p

def decode (bytes : List UInt8) : Except ImageError Program :=
  match bytes.drop signature.length with
  | [] => .error (if bytes.isPrefixOf signature then .truncated else .badSignature)
  | v :: payload =>
    if bytes.take signature.length ≠ signature then .error .badSignature
    else if v ≠ version then .error (.unsupportedVersion v)
    else
      match Codec.program.read.run payload with
      | .ok (p, _) => .ok p
      | .error e => .error (.decode e)

end Image

end RegisterMachine
