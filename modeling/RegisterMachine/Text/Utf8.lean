import RegisterMachine.Text.Basic

/-!
# UTF-8

The encoding of text as bytes and its two decodings: a strict one that refuses invalid bytes, and a
lossy one that puts U+FFFD for each maximal invalid sequence. Both read the same stream of
`Utf8.next` steps.
-/

namespace RegisterMachine.Utf8

def encodeChar (c : Char) : List UInt8 :=
  let n := c.toNat
  if n < 0x80 then [UInt8.ofNat n]
  else if n < 0x800 then [UInt8.ofNat (0xC0 + n / 0x40), UInt8.ofNat (0x80 + n % 0x40)]
  else if n < 0x10000 then
    [UInt8.ofNat (0xE0 + n / 0x1000), UInt8.ofNat (0x80 + n / 0x40 % 0x40),
      UInt8.ofNat (0x80 + n % 0x40)]
  else
    [UInt8.ofNat (0xF0 + n / 0x40000), UInt8.ofNat (0x80 + n / 0x1000 % 0x40),
      UInt8.ofNat (0x80 + n / 0x40 % 0x40), UInt8.ofNat (0x80 + n % 0x40)]

def encode (s : Text) : List UInt8 :=
  s.flatMap encodeChar

/-- How many continuation bytes a leading byte asks for, with the bits it contributes and the range
of its first continuation byte. The range keeps out over-long forms, surrogates and code points
above U+10FFFF. `none` for a byte that leads nothing. -/
def lead? (b : Nat) : Option (Nat × Nat × Nat × Nat) :=
  if b < 0x80 then some (0, b, 0, 0)
  else if b < 0xC2 then none
  else if b < 0xE0 then some (1, b - 0xC0, 0x80, 0xBF)
  else if b = 0xE0 then some (2, 0, 0xA0, 0xBF)
  else if b = 0xED then some (2, 0xD, 0x80, 0x9F)
  else if b < 0xF0 then some (2, b - 0xE0, 0x80, 0xBF)
  else if b = 0xF0 then some (3, 0, 0x90, 0xBF)
  else if b < 0xF4 then some (3, b - 0xF0, 0x80, 0xBF)
  else if b = 0xF4 then some (3, 4, 0x80, 0x8F)
  else none

/-- Reads `count` continuation bytes, the first of them within `lo` and `hi`, onto the bits `acc`.
Stops in front of the first byte that does not fit. -/
def continuation : Nat → Nat → Nat → Nat → List UInt8 → Option Nat × List UInt8
  | 0, acc, _, _, bs => (some acc, bs)
  | _ + 1, _, _, _, [] => (none, [])
  | count + 1, acc, lo, hi, b :: bs =>
    if lo ≤ b.toNat ∧ b.toNat ≤ hi then
      continuation count (acc * 0x40 + b.toNat % 0x40) 0x80 0xBF bs
    else (none, b :: bs)

/-- The next character of a byte stream whose first byte is `b`, or `none` for a maximal invalid
sequence, with the bytes that follow it. -/
def next (b : UInt8) (bs : List UInt8) : Option Char × List UInt8 :=
  match lead? b.toNat with
  | none => (none, bs)
  | some (count, bits, lo, hi) =>
    let (code, rest) := continuation count bits lo hi bs
    (code.map Char.ofNat, rest)

theorem length_continuation_le (count acc lo hi : Nat) (bs : List UInt8) :
    (continuation count acc lo hi bs).2.length ≤ bs.length := by
  induction count generalizing acc lo hi bs with
  | zero => simp [continuation]
  | succ count ih =>
    cases bs with
    | nil => simp [continuation]
    | cons b bs =>
      unfold continuation
      split
      · exact Nat.le_succ_of_le (ih ..)
      · simp

theorem length_next_le (b : UInt8) (bs : List UInt8) : (next b bs).2.length ≤ bs.length := by
  unfold next
  split
  · simp
  · exact length_continuation_le ..

/-- The stream of characters, with `none` in the place of each maximal invalid sequence. -/
def scan : List UInt8 → List (Option Char)
  | [] => []
  | b :: bs => (next b bs).1 :: scan (next b bs).2
termination_by bs => bs.length
decreasing_by exact Nat.lt_succ_of_le (length_next_le b bs)

/-- The text that the bytes encode, or `none` if they are not valid. -/
def decode? (bs : List UInt8) : Option Text :=
  (scan bs).mapM id

/-- The text that the bytes encode, with U+FFFD for each maximal invalid sequence. -/
def decodeLossy (bs : List UInt8) : Text :=
  (scan bs).map (·.getD '\uFFFD')

end RegisterMachine.Utf8
