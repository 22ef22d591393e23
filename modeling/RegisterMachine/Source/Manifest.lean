import RegisterMachine.Numeric.Double
import RegisterMachine.Text.Escaped
import RegisterMachine.Text.Utf8

/-!
# Manifests

A manifest lists the source files of a library as a JSON array of strings. Reading it is strict:
nothing but white space may follow the array, and the first problem from the left is reported with
its line and column. Columns count bytes; a problem with a byte that is only looked at counts that
byte too.
-/

namespace RegisterMachine

namespace Manifest

/-- Why a text is no array of strings. -/
inductive Cause where
  | endOfList
  | endOfString
  | endOfValue
  | expectedCommaOrEnd
  | expectedIdent
  | expectedValue
  | invalidEscape
  | invalidNumber
  | numberOutOfRange
  | controlCharacter
  | loneSurrogate
  | endOfHexEscape
  | trailingComma
  | trailingCharacters
  | invalidType (found expected : String)
  deriving DecidableEq, Repr

def Cause.message : Cause → String
  | endOfList => "EOF while parsing a list"
  | endOfString => "EOF while parsing a string"
  | endOfValue => "EOF while parsing a value"
  | expectedCommaOrEnd => "expected \x60,\x60 or \x60]\x60"
  | expectedIdent => "expected ident"
  | expectedValue => "expected value"
  | invalidEscape => "invalid escape"
  | invalidNumber => "invalid number"
  | numberOutOfRange => "number out of range"
  | controlCharacter =>
    "control character (\\u0000-\\u001F) found while parsing a string"
  | loneSurrogate => "lone leading surrogate in hex escape"
  | endOfHexEscape => "unexpected end of hex escape"
  | trailingComma => "trailing comma"
  | trailingCharacters => "trailing characters"
  | invalidType found expected => s!"invalid type: {found}, expected {expected}"

/-- A problem and the number of bytes that follow its place. -/
structure Problem where
  cause : Cause
  left : Nat
  deriving DecidableEq, Repr

/-- A problem in front of `rest`. -/
def before (cause : Cause) (rest : List UInt8) : Problem :=
  ⟨cause, rest.length⟩

/-- A problem with the first byte of `rest`, or with its absence. -/
def looking (cause : Cause) (rest : List UInt8) : Problem :=
  ⟨cause, rest.length - 1⟩

def is (b : UInt8) (c : Char) : Bool :=
  b == c.toUInt8

def isDigit (b : UInt8) : Bool :=
  '0'.toUInt8 ≤ b && b ≤ '9'.toUInt8

def skip (s : List UInt8) : List UInt8 :=
  s.dropWhile fun b => is b ' ' || is b '\n' || is b '\t' || is b '\r'

def hexValue (ds : List UInt8) : Option Nat :=
  (ds.mapM fun b => Numeral.digit? 16 (Char.ofNat b.toNat)).map fun vs =>
    vs.foldl (fun n v => n * 16 + v) 0

def hexEscape (s : List UInt8) : Except Problem Nat :=
  if s.length < 4 then .error (before .endOfString [])
  else
    match hexValue (s.take 4) with
    | some n => .ok n
    | none => .error (before .invalidEscape (s.drop 4))

def require (c : Char) (s : List UInt8) : Except Problem Unit :=
  match s with
  | [] => .error (before .endOfString [])
  | b :: s => if is b c then .ok () else .error (before .endOfHexEscape s)

/-- The character of a hexadecimal escape that starts behind its mark, and how many bytes spell it.
Characters outside the basic plane take two escapes. -/
def codeEscape (s : List UInt8) : Except Problem (Char × Nat) := do
  let high ← hexEscape s
  if 0xDC00 ≤ high ∧ high ≤ 0xDFFF then throw (before .loneSurrogate (s.drop 4))
  if high < 0xD800 ∨ 0xDBFF < high then return (Char.ofNat high, 4)
  require '\\' (s.drop 4)
  require 'u' (s.drop 5)
  let low ← hexEscape (s.drop 6)
  if low < 0xDC00 ∨ 0xDFFF < low then throw (before .loneSurrogate (s.drop 10))
  return (Char.ofNat ((high - 0xD800) * 0x400 + (low - 0xDC00) + 0x10000), 10)

/-- The character of an escape that starts behind its backslash, and how many bytes spell it. -/
def escape (s : List UInt8) : Except Problem (Char × Nat) :=
  match s with
  | [] => .error (before .endOfString [])
  | b :: s =>
    if is b '"' || is b '\\' || is b '/' then .ok (Char.ofNat b.toNat, 1)
    else if is b 'b' then .ok ('\x08', 1)
    else if is b 'f' then .ok ('\x0c', 1)
    else if is b 'n' then .ok ('\n', 1)
    else if is b 'r' then .ok ('\r', 1)
    else if is b 't' then .ok ('\t', 1)
    else if is b 'u' then (codeEscape s).map fun (c, n) => (c, n + 1)
    else .error (before .invalidEscape s)

/-- Reads a string behind its opening quote: its bytes, and what follows the closing quote. -/
def stringBody : List UInt8 → Except Problem (List UInt8 × List UInt8)
  | [] => .error (before .endOfString [])
  | b :: s =>
    if is b '"' then .ok ([], s)
    else if is b '\\' then do
      let (c, n) ← escape s
      let (bytes, rest) ← stringBody (s.drop n)
      return (Utf8.encodeChar c ++ bytes, rest)
    else if b < 0x20 then .error (before .controlCharacter s)
    else do
      let (bytes, rest) ← stringBody s
      return (b :: bytes, rest)
termination_by s => s.length
decreasing_by all_goals simp; try omega

def word : List Char → List UInt8 → Except Problem (List UInt8)
  | [], s => .ok s
  | _ :: _, [] => .error (before .endOfValue [])
  | c :: cs, b :: s => if is b c then word cs s else .error (before .expectedIdent s)

/-- Appends decimal digits to a number as long as it stays below `bound`: the number, and the digits
that are left over. -/
def append (bound : Nat) : Nat → List UInt8 → Nat × List UInt8
  | n, [] => (n, [])
  | n, b :: ds =>
    let next := n * 10 + (b.toNat - '0'.toNat)
    if next < bound then append bound next ds else (n, b :: ds)

/-- Reads the fraction of a number: its digits, none if there is no point. -/
def fraction (s : List UInt8) : Except Problem (List UInt8 × List UInt8) :=
  match s with
  | [] => .ok ([], [])
  | b :: s =>
    if is b '.' then
      match s.takeWhile isDigit, s with
      | [], [] => .error (looking .endOfValue [])
      | [], s => .error (looking .invalidNumber s)
      | ds, s => .ok (ds, s.dropWhile isDigit)
    else .ok ([], b :: s)

/-- Reads the exponent of a number, if it has one. An exponent has at most 31 bits: a greater one takes
a number out of range, unless its digits are all zero, and a smaller one is as good as the least. -/
def exponent (isZero : Bool) (s : List UInt8) : Except Problem (Option Int × List UInt8) :=
  match s with
  | [] => .ok (none, [])
  | b :: s =>
    if is b 'e' || is b 'E' then
      let negative := (s.head?.map (is · '-')).getD false
      let signed := negative || (s.head?.map (is · '+')).getD false
      let s := if signed then s.drop 1 else s
      match s.takeWhile isDigit, s with
      | [], [] => .error (before .endOfValue [])
      | [], _ :: s => .error (before .invalidNumber s)
      | ds, s =>
        let (n, left) := append 0x80000000 0 ds
        let rest := s.dropWhile isDigit
        if left.isEmpty || negative || isZero then
          let magnitude : Int := if left.isEmpty then n else 0x80000000
          .ok (some (if negative then -magnitude else magnitude), rest)
        else .error (before .numberOutOfRange (left.drop 1 ++ rest))
    else .ok (none, b :: s)

def numberName (negative : Bool) (digits : Nat) (e : Option Int) : Option String :=
  if e.isNone && !negative then some s!"integer \x60{digits}\x60"
  else if e.isNone && 0 < digits && digits ≤ 0x8000000000000000 then some s!"integer \x60-{digits}\x60"
  else
    (Double.text? negative digits (e.getD 0)).map fun text =>
      s!"floating point \x60{String.ofList text}\x60"

/-- Reads a number and returns its name in a message. A number keeps as many digits as fit into 64
bits, and of its whole part no digit behind one that does not fit; digits that are left over in the
whole part count for the power of ten only, and those in the fraction not at all. -/
def number (negative : Bool) (s : List UInt8) : Except Problem (String × List UInt8) := do
  let b :: rest := s | throw (before .endOfValue [])
  if !isDigit b then throw (before .invalidNumber rest)
  if is b '0' && (rest.head?.map isDigit).getD false then throw (looking .invalidNumber rest)
  let (whole, wholeLeft) := append UInt64.size 0 (s.takeWhile isDigit)
  let (places, afterFraction) ← fraction (s.dropWhile isDigit)
  let (digits, placesLeft) := append UInt64.size whole places
  let (e, after) ← exponent (digits == 0) afterFraction
  let isInteger := wholeLeft.isEmpty && places.isEmpty && e.isNone
  let scale : Int := wholeLeft.length + placesLeft.length - places.length
  let e := if isInteger then none else some (scale + e.getD 0)
  match numberName negative digits e with
  | none => throw (before .numberOutOfRange after)
  | some name => return (name, after)

def wrongType (expected : String) (s : List UInt8) : Problem :=
  let wrong (found : String) (rest : List UInt8) : Problem :=
    before (.invalidType found expected) rest
  let result (r : Except Problem (String × List UInt8)) : Problem :=
    match r with
    | .ok (found, rest) => wrong found rest
    | .error p => p
  match s with
  | [] => looking .endOfValue []
  | b :: rest =>
    if is b 'n' then result ((word ['u', 'l', 'l'] rest).map (("null", ·)))
    else if is b 't' then result ((word ['r', 'u', 'e'] rest).map (("boolean \x60true\x60", ·)))
    else if is b 'f' then
      result ((word ['a', 'l', 's', 'e'] rest).map (("boolean \x60false\x60", ·)))
    else if is b '-' then result (number true rest)
    else if isDigit b then result (number false s)
    else if is b '"' then
      result <| (stringBody rest).map fun (bytes, rest) =>
        ("string " ++ String.ofList (Text.escaped (Utf8.decodeLossy bytes)), rest)
    else if is b '[' then wrong "sequence" s
    else if is b '{' then wrong "map" s
    else looking .expectedValue s

def string (s : List UInt8) : Except Problem (Text × List UInt8) :=
  match skip s with
  | [] => .error (looking .endOfValue [])
  | b :: rest =>
    if is b '"' then (stringBody rest).map fun (bytes, rest) => (Utf8.decodeLossy bytes, rest)
    else .error (wrongType "a string" (b :: rest))

/-- Reads what follows the opening bracket or a member, with as many members as the first argument
says. -/
def members : (bound : Nat) → (isFirst : Bool) → List UInt8 → Except Problem (List Text × List UInt8)
  | 0, _, _ => .error (looking .endOfList [])
  | bound + 1, isFirst, s =>
    match skip s with
    | [] => .error (looking .endOfList [])
    | b :: rest =>
      if is b ']' then .ok ([], rest)
      else if isFirst then do
        let (text, rest) ← string (b :: rest)
        let (texts, rest) ← members bound false rest
        return (text :: texts, rest)
      else if is b ',' then
        match skip rest with
        | [] => .error (looking .endOfValue [])
        | d :: rest => do
          if is d ']' then throw (looking .trailingComma (d :: rest))
          let (text, rest) ← string (d :: rest)
          let (texts, rest) ← members bound false rest
          return (text :: texts, rest)
      else .error (looking .expectedCommaOrEnd (b :: rest))

/-- Reads an array of strings. Every member takes at least one byte, so the number of bytes bounds
the number of members. -/
def array (s : List UInt8) : Except Problem (List Text) :=
  match skip s with
  | [] => .error (looking .endOfValue [])
  | b :: rest =>
    if is b '[' then do
      let (texts, rest) ← members (rest.length + 1) true rest
      match skip rest with
      | [] => return texts
      | rest => throw (looking .trailingCharacters rest)
    else .error (wrongType "a sequence" (b :: rest))

/-- The line and the column of the place behind the given bytes. -/
def position (consumed : List UInt8) : Nat × Nat :=
  (consumed.countP (is · '\n') + 1, (consumed.reverse.takeWhile (!is · '\n')).length)

def read (json : Text) : Except String (List Text) :=
  let bytes := Utf8.encode json
  match array bytes with
  | .ok paths => .ok paths
  | .error p =>
    let (line, column) := position (bytes.take (bytes.length - p.left))
    .error s!"{p.cause.message} at line {line} column {column}"

end Manifest

end RegisterMachine
