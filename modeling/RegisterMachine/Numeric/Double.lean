import RegisterMachine.Numeric.Decimal

/-!
# Double precision literals

A decimal literal in double precision takes three roundings: its digits are rounded to a value, the
power of ten that scales them is rounded, and so is their product or quotient. The text of the
result is the shortest decimal that reads back to it, positional between `10 ^ -5` and `10 ^ 16`.
-/

namespace RegisterMachine.Double

def layout : Decimal.Layout where
  pointZero := true
  plusSign := true
  bounds := some (-4, 16)

def mul (x y : Binary) : Binary :=
  let (a, b) := x.toQuotient
  let (c, d) := y.toQuotient
  .double (a * c) (b * d)

def div (x y : Binary) : Binary :=
  let (a, b) := x.toQuotient
  let (c, d) := y.toQuotient
  .double (a * d) (b * c)

/-- Whether a value is below the least power of two that is out of range. -/
def isFinite (x : Binary) : Bool :=
  let (num, den) := x.toQuotient
  num < Nat.pow 2 1024 * den

/-- The greatest power of ten in range. -/
def greatestPower : Nat := 308

def tenPower (k : Nat) : Binary :=
  .double (Nat.pow 10 k) 1

/-- The value `x * 10 ^ e`, or `none` if it is out of range. A negative power out of range is
reached in steps of the greatest power in range. -/
def scale? (x : Binary) (e : Int) : Option Binary :=
  if x.m = 0 then some x
  else if greatestPower < e then none
  else if 0 ≤ e then
    let y := mul x (tenPower e.toNat)
    if isFinite y then some y else none
  else if -greatestPower ≤ e then some (div x (tenPower (-e).toNat))
  else scale? (div x (tenPower greatestPower)) (e + greatestPower)
termination_by (-e).toNat
decreasing_by simp only [greatestPower] at *; omega

def magnitudeText (x : Binary) : Text :=
  let x := if x.m = 0x20000000000000 then ⟨0x10000000000000, x.q + 1⟩ else x
  if x.m = 0 then ['0', '.', '0']
  else
    let narrowBelow := x.m == 0x10000000000000 && -1074 < x.q
    (x.shortest narrowBelow .even 17).render layout

/-- The text of the literal with the given digits and power of ten, or `none` if it is out of
range. -/
def text? (negative : Bool) (digits : Nat) (e : Int) : Option Text :=
  (scale? (.double digits 1) e).map fun x =>
    if negative then '-' :: magnitudeText x else magnitudeText x

end RegisterMachine.Double
