/-!
# Binary floating point numbers, exactly

A finite nonnegative value is `m * 2 ^ q`. `Binary.nearest` rounds a quotient of naturals to a
given precision, to the nearest value and on a tie to the even one; reading a decimal and
computing a percentage are both instances of it. `roundDiv` is the same decision for integers.
-/

namespace RegisterMachine

/-- The quotient `num / den` rounded to an integer, a half going to the even neighbour. -/
def roundDiv (num den : Nat) : Nat :=
  let q := num / den
  match compare (2 * (num % den)) den with
  | .lt => q
  | .eq => if q % 2 = 0 then q else q + 1
  | .gt => q + 1

/-- A finite nonnegative value `m * 2 ^ q`. -/
structure Binary where
  m : Nat
  q : Int
  deriving DecidableEq, Repr

namespace Binary

def toQuotient (x : Binary) : Nat × Nat :=
  (x.m * Nat.pow 2 x.q.toNat, Nat.pow 2 (-x.q).toNat)

/-- The greatest `k` with `2 ^ k ≤ num / den`, for positive `num` and `den`. -/
def floorLog (num den : Nat) : Int :=
  let k : Int := num.log2 - den.log2
  if num * Nat.pow 2 (-k).toNat < den * Nat.pow 2 k.toNat then k - 1 else k

/-- The value of `precision` binary digits nearest to `num / den`, with no exponent below `least`.
A carry out of the digits is left in `m`. -/
def nearest (precision : Nat) (least : Int) (num den : Nat) : Binary :=
  if num = 0 then ⟨0, least⟩
  else
    let q := max (floorLog num den - precision + 1) least
    ⟨roundDiv (num * Nat.pow 2 (-q).toNat) (den * Nat.pow 2 q.toNat), q⟩

end Binary

def Binary.double (num den : Nat) : Binary :=
  .nearest 53 (-1074) num den

/-- The share of `count` in `total` in tenths of a percent: the quotient and its hundredfold are
each rounded to double precision before the tenths are. -/
def shareInTenths (count total : Nat) : Nat :=
  let (num, den) := (Binary.double count total).toQuotient
  let (num, den) := (Binary.double (num * 100) den).toQuotient
  roundDiv (num * 10) den

end RegisterMachine
