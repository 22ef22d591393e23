import RegisterMachine.Numeric.Decimal

/-!
# Single precision patterns

A float operand is kept as the 32 bits of its single precision pattern: one sign bit, eight bits of
exponent, twenty-three bits of fraction. This file reads decimal literals into patterns, correctly
rounded, and writes patterns as the shortest decimals that read back.
-/

namespace RegisterMachine.Single

/-- The bits below the sign. -/
def magnitude (bits : UInt32) : Nat :=
  bits.toNat % 0x80000000

def isNegative (bits : UInt32) : Bool :=
  0x80000000 ≤ bits.toNat

/-- The magnitude of infinity; every greater magnitude is a NaN. -/
def infinity : Nat :=
  0x7F800000

def toBinary (magnitude : Nat) : Binary :=
  let e : Nat := magnitude / 0x800000
  let f : Nat := magnitude % 0x800000
  if e = 0 then ⟨f, -149⟩ else ⟨0x800000 + f, (e : Int) - 150⟩

/-- The magnitude of a value of 24 binary digits, infinity if it is out of range. -/
def ofBinary (x : Binary) : Nat :=
  min infinity ((x.q + 149).toNat * 0x800000 + x.m)

/-- The magnitude nearest to `m * 10 ^ e`. Values outside the range of the format are decided by
their number of digits, so no power grows beyond what the literal itself spells out. -/
def ofDecimal (m : Nat) (e : Int) : Nat :=
  let scale : Int := (Numeral.ofNat m).length + e
  if m = 0 ∨ scale < -45 then 0
  else if 39 < scale then infinity
  else ofBinary (.nearest 24 (-149) (m * Nat.pow 10 e.toNat) (Nat.pow 10 (-e).toNat))

def digitsValue (ds : Text) : Nat :=
  ds.foldl (fun n c => n * 10 + (c.toNat - '0'.toNat)) 0

/-- The exponent part of a literal: nothing, or a mark, an optional sign and digits. -/
def exponent? : Text → Option Int
  | [] => some 0
  | c :: s =>
    if c = 'e' ∨ c = 'E' then
      let (negative, ds) :=
        match s with
        | '-' :: r => (true, r)
        | '+' :: r => (false, r)
        | r => (false, r)
      if ds ≠ [] ∧ ds.all Char.isDigit then
        some (if negative then -(digitsValue ds) else digitsValue ds)
      else none
    else none

/-- The magnitude of an unsigned literal: digits with at most one point and at least one digit, then
an optional exponent. -/
def unsigned? (s : Text) : Option Nat := do
  let whole := s.takeWhile Char.isDigit
  let rest := s.dropWhile Char.isDigit
  let (fraction, rest) :=
    match rest with
    | '.' :: r => (r.takeWhile Char.isDigit, r.dropWhile Char.isDigit)
    | r => ([], r)
  guard (whole ++ fraction ≠ [])
  let e ← exponent? rest
  return ofDecimal (digitsValue (whole ++ fraction)) (e - fraction.length)

def read? (s : Text) : Option UInt32 :=
  match s with
  | '-' :: s => (unsigned? s).map fun n => UInt32.ofNat (0x80000000 + n)
  | '+' :: s => (unsigned? s).map UInt32.ofNat
  | s => (unsigned? s).map UInt32.ofNat

def magnitudeText (layout : Decimal.Layout) (n : Nat) : Text :=
  if n = infinity then ['i', 'n', 'f']
  else if n = 0 then '0' :: (if layout.pointZero then ['.', '0'] else [])
  else
    -- the value below a power of two is half as far away as the one above, except at the bottom
    let narrowBelow := n % 0x800000 == 0 && 0x1000000 ≤ n
    ((toBinary n).shortest narrowBelow .greater 9).render layout

/-- The text of a pattern: the shortest decimal that reads back to it, with its sign; all NaNs are
written alike. -/
def text (layout : Decimal.Layout) (bits : UInt32) : Text :=
  let n := magnitude bits
  if infinity < n then ['N', 'a', 'N']
  else if isNegative bits then '-' :: magnitudeText layout n
  else magnitudeText layout n

end RegisterMachine.Single
