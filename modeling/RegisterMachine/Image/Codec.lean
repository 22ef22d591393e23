import RegisterMachine.Numeric.Word
import RegisterMachine.Text.Utf8

/-!
# Codecs

The building blocks of a program image. A codec writes a value as bytes and reads it back from the
front of a longer input, so codecs of parts combine to a codec of the whole. Numbers are written in
groups of seven bits, the lowest group first, with the top bit of a byte set when another group
follows; sequences and texts start with their length.
-/

namespace RegisterMachine

inductive DecodeError where
  /-- The input ends too early. -/
  | endOfInput
  /-- A number has too many groups, or exceeds its type. -/
  | overlongNumber
  | invalidUtf8
  | unknownVariant
  deriving DecidableEq, Repr

def DecodeError.message : DecodeError → String
  | .endOfInput => "Hit the end of buffer, expected more data"
  | .overlongNumber =>
    "Found a varint that didn't terminate. Is the usize too big for this platform?"
  | .invalidUtf8 => "Tried to parse invalid utf-8"
  | .unknownVariant => "Serde Deserialization Error"

/-- Reads a value from the front of the input and leaves the rest. -/
abbrev Decoder := StateT (List UInt8) (Except DecodeError)

/-- A way to write values as bytes and to read them back. -/
structure Codec (α : Type) where
  write : α → List UInt8
  read : Decoder α

namespace Codec

def readByte : Decoder UInt8 := fun bs =>
  match bs with
  | [] => .error .endOfInput
  | b :: bs => .ok (b, bs)

def byte : Codec UInt8 where
  write b := [b]
  read := readByte

def writeGroups (n : Nat) : List UInt8 :=
  if n < 128 then [UInt8.ofNat n] else UInt8.ofNat (128 + n % 128) :: writeGroups (n / 128)
termination_by n

/-- Reads a number of at most as many groups as the argument says, of which the last allowed one is
at most `last`. -/
def readGroups (last : Nat) : Nat → Decoder Nat
  | 0 => throw .overlongNumber
  | groups + 1 => do
    let b ← readByte
    if b.toNat < 128 then
      if groups = 0 ∧ last < b.toNat then throw .overlongNumber else return b.toNat
    else
      let high ← readGroups last groups
      return b.toNat - 128 + 128 * high

/-- A number of 32 bits: at most five groups, with four bits in the last. -/
def word : Codec UInt32 where
  write n := writeGroups n.toNat
  read := do return UInt32.ofNat (← readGroups 15 5)

/-- A length or a line number, of 64 bits: at most ten groups, with one bit in the last. -/
def size : Codec Nat where
  write := writeGroups
  read := readGroups 1 10

def pattern : Codec UInt32 where
  write := Word.toBytes
  read := do
    let b₀ ← readByte
    let b₁ ← readByte
    let b₂ ← readByte
    let b₃ ← readByte
    return Word.ofBytes b₀ b₁ b₂ b₃

/-- The place of a signed number in the order 0, -1, 1, -2, 2 and so on. -/
def zigzag (i : Int) : Nat :=
  if i < 0 then (-2 * i - 1).toNat else (2 * i).toNat

def unzigzag (n : Nat) : Int :=
  if n % 2 = 0 then (n / 2 : Nat) else -((n / 2 : Nat) : Int) - 1

/-- A signed number of 32 bits, so that numbers near zero are short. -/
def int : Codec Int32 where
  write i := writeGroups (zigzag i.toInt)
  read := do return Int32.ofInt (unzigzag (← readGroups 15 5))

def readBytes (count : Nat) : Decoder (List UInt8) := fun bs =>
  if count ≤ bs.length then .ok (bs.splitAt count) else .error .endOfInput

def text : Codec Text where
  write s := size.write (Utf8.encode s).length ++ Utf8.encode s
  read := do
    let count ← size.read
    let bytes ← readBytes count
    match Utf8.decode? bytes with
    | some s => return s
    | none => throw .invalidUtf8

def readMany {α : Type} (c : Codec α) : Nat → Decoder (List α)
  | 0 => return []
  | count + 1 => do
    let x ← c.read
    let xs ← readMany c count
    return x :: xs

/-- A list: its length, and its members. -/
def list {α : Type} (c : Codec α) : Codec (List α) where
  write xs := size.write xs.length ++ xs.flatMap c.write
  read := do
    let count ← size.read
    c.readMany count

def pair {α β : Type} (c : Codec α) (d : Codec β) : Codec (α × β) where
  write x := c.write x.1 ++ d.write x.2
  read := do
    let a ← c.read
    let b ← d.read
    return (a, b)

/-- The same bytes for the values of another type. -/
def map {α β : Type} (c : Codec α) (toFields : β → α) (ofFields : α → β) : Codec β where
  write x := c.write (toFields x)
  read := do return ofFields (← c.read)

/-- The position of a value in a list of all values. -/
def enumeration {α : Type} [DecidableEq α] (all : List α) : Codec α where
  write x := writeGroups (all.idxOf x)
  read := do
    let index ← word.read
    match all[index.toNat]? with
    | some x => return x
    | none => throw .unknownVariant

end Codec

end RegisterMachine
