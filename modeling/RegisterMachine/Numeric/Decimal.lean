import RegisterMachine.Numeric.Binary
import RegisterMachine.Numeric.Integer

/-!
# Shortest decimals

`Binary.shortest` selects, among the decimals that round to a given binary value, one with the
fewest digits, and of those the one nearest to the value; a `Tie` says which of two equally near
ones it takes. The selection is a search over decimal grids from coarse to fine, in exact
arithmetic. A `Layout` says how the selected digits are written.
-/

namespace RegisterMachine

/-- The value `digits * 10 ^ exp`. -/
structure Decimal where
  digits : Nat
  exp : Int
  deriving DecidableEq, Repr

/-- Which of two neighbours on a grid is taken when both are equally near. -/
inductive Tie where
  | greater
  | even
  deriving DecidableEq, Repr

def Tie.select (tie : Tie) (low : Nat) : Nat :=
  match tie with
  | .greater => low + 1
  | .even => if low % 2 = 0 then low else low + 1

namespace Binary

def compareScaled (a : Nat) (i : Int) (n : Nat) (j : Int) : Ordering :=
  compare (a * Nat.pow 10 i.toNat * Nat.pow 2 (-j).toNat)
    (n * Nat.pow 2 j.toNat * Nat.pow 10 (-i).toNat)

/-- Whether `d` lies among the reals that round to `x`: at most half a gap away from it, the two
ends included exactly when `x.m` is even. The gap below is half the gap above where `narrowBelow`
holds, as it does at a power of two. -/
def readsBack (x : Binary) (narrowBelow : Bool) (d : Decimal) : Bool :=
  let lo := if narrowBelow then 4 * x.m - 1 else 4 * x.m - 2
  let fromLo := compareScaled d.digits d.exp lo (x.q - 2)
  let fromHi := compareScaled d.digits d.exp (4 * x.m + 2) (x.q - 2)
  let even := x.m % 2 == 0
  (fromLo == .gt || even && fromLo == .eq) && (fromHi == .lt || even && fromHi == .eq)

def decimalScale (x : Binary) : Int :=
  let (num, den) := x.toQuotient
  let places := (-x.q).toNat
  (Nat.toDigits 10 (num * Nat.pow 10 places / den)).length - places

/-- The neighbour of `x` on the grid of the multiples of `10 ^ exp` that rounds to `x`. -/
def onGrid? (x : Binary) (narrowBelow : Bool) (tie : Tie) (exp : Int) : Option Decimal :=
  let (num, den) := x.toQuotient
  let low := num * Nat.pow 10 (-exp).toNat / (den * Nat.pow 10 exp.toNat)
  match x.readsBack narrowBelow ⟨low, exp⟩, x.readsBack narrowBelow ⟨low + 1, exp⟩ with
  | false, false => none
  | true, false => some ⟨low, exp⟩
  | false, true => some ⟨low + 1, exp⟩
  | true, true =>
    match compareScaled (2 * low + 1) exp (2 * x.m) x.q with
    | .gt => some ⟨low, exp⟩
    | .lt => some ⟨low + 1, exp⟩
    | .eq => some ⟨tie.select low, exp⟩

def toDecimal (x : Binary) : Decimal :=
  ⟨x.m * Nat.pow 2 x.q.toNat * Nat.pow 5 (-x.q).toNat, min x.q 0⟩

/-- The shortest decimal that rounds to `x`, for positive `x` of at most `maxDigits` significant
digits; the exact value if none of that length does. -/
def shortest (x : Binary) (narrowBelow : Bool) (tie : Tie) (maxDigits : Nat) : Decimal :=
  let scale := x.decimalScale
  let found := (List.range maxDigits).findSome? fun (n : Nat) =>
    x.onGrid? narrowBelow tie (scale - n - 1)
  found.getD x.toDecimal

end Binary

structure Decimal.Layout where
  /-- A whole number in positional form ends in a point and a zero. -/
  pointZero : Bool
  plusSign : Bool
  /-- The least and the greatest place of the point, counted from the first digit, at which a
  decimal is written in positional form; outside of them it has an exponent. Without bounds it never
  has one. -/
  bounds : Option (Int × Int)

def Decimal.Layout.hasExponent (layout : Layout) (point : Int) : Bool :=
  match layout.bounds with
  | none => false
  | some (least, greatest) => point < least || greatest < point

namespace Decimal

/-- The digits without trailing zeros, and the place of the point counted from the first digit. -/
def normalize (d : Decimal) : Text × Int :=
  let ds := Numeral.ofNat d.digits
  (Text.dropEndWhile (· == '0') ds, ds.length + d.exp)

/-- Digits with the point at `point`, zeros filling the places in between. -/
def positional (pointZero : Bool) (ds : Text) (point : Int) : Text :=
  if point ≤ 0 then
    '0' :: '.' :: (List.replicate (-point).toNat '0' ++ ds)
  else if ds.length ≤ point then
    ds ++ List.replicate (point.toNat - ds.length) '0' ++ (if pointZero then ['.', '0'] else [])
  else
    ds.take point.toNat ++ '.' :: ds.drop point.toNat

def scientific (plusSign : Bool) (ds : Text) (point : Int) : Text :=
  let sign := if plusSign && 1 < point then ['+'] else []
  let tail := 'e' :: (sign ++ Numeral.ofInt (point - 1))
  match ds with
  | [] => tail
  | [d] => d :: tail
  | d :: r => d :: '.' :: (r ++ tail)

def render (layout : Layout) (d : Decimal) : Text :=
  let (ds, point) := d.normalize
  if layout.hasExponent point then scientific layout.plusSign ds point
  else positional layout.pointZero ds point

end Decimal

end RegisterMachine
