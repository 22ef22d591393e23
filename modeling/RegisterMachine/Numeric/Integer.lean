import RegisterMachine.Text.Basic

/-!
# Integer numerals

Writing and reading of integers. A reader goes from left to right and the first character that does
not fit decides the error: one that is no digit of the base, or the digit that takes the value past
the limit of the type.
-/

namespace RegisterMachine

inductive NumeralError where
  | empty
  | invalidDigit
  | tooLarge
  | tooSmall
  deriving DecidableEq, Repr

def NumeralError.message : NumeralError → String
  | .empty => "cannot parse integer from empty string"
  | .invalidDigit => "invalid digit found in string"
  | .tooLarge => "number too large to fit in target type"
  | .tooSmall => "number too small to fit in target type"

namespace Numeral

def ofNat (n : Nat) : Text :=
  Nat.toDigits 10 n

def ofInt (i : Int) : Text :=
  if i < 0 then '-' :: ofNat i.natAbs else ofNat i.natAbs

def hex (n : Nat) : Text :=
  Nat.toDigits 16 n

/-- The decimal digits of a natural number, with zeros in front up to `width` digits. -/
def padded (width n : Nat) : Text :=
  Text.padStart '0' width (ofNat n)

/-- The value of a digit in a base of at most sixteen, in either case. -/
def digit? (base : Nat) (c : Char) : Option Nat :=
  let value :=
    if c.isDigit then some (c.toNat - '0'.toNat)
    else if 'a' ≤ c ∧ c ≤ 'f' then some (c.toNat - 'a'.toNat + 10)
    else if 'A' ≤ c ∧ c ≤ 'F' then some (c.toNat - 'A'.toNat + 10)
    else none
  value.filter (· < base)

/-- Reads digits onto `acc`; a value above `limit` is the error `excess`. -/
def digits (base limit : Nat) (excess : NumeralError) : Nat → Text → Except NumeralError Nat
  | acc, [] => .ok acc
  | acc, c :: s =>
    match digit? base c with
    | none => .error .invalidDigit
    | some d =>
      if limit < acc * base + d then .error excess
      else digits base limit excess (acc * base + d) s

/-- Reads an unsigned numeral of at most `limit`; one plus sign may stand in front. -/
def unsigned (base limit : Nat) (s : Text) : Except NumeralError Nat :=
  match s with
  | [] => .error .empty
  | ['+'] => .error .invalidDigit
  | '+' :: s => digits base limit .tooLarge 0 s
  | s => digits base limit .tooLarge 0 s

/-- Reads a signed decimal numeral of 32 bits; one sign may stand in front. -/
def int32 (s : Text) : Except NumeralError Int32 :=
  match s with
  | [] => .error .empty
  | ['+'] => .error .invalidDigit
  | ['-'] => .error .invalidDigit
  | '-' :: s => (digits 10 0x80000000 .tooSmall 0 s).map fun n => Int32.ofInt (-n)
  | '+' :: s => (digits 10 0x7FFFFFFF .tooLarge 0 s).map fun n => Int32.ofInt n
  | s => (digits 10 0x7FFFFFFF .tooLarge 0 s).map fun n => Int32.ofInt n

end Numeral

end RegisterMachine
