/-!
# Words as bytes

A word of 32 bits is four bytes, the lowest first. Memory, the heap and program images all store
words in this form.
-/

namespace RegisterMachine.Word

/-- The four bytes of a word, the lowest first. -/
def toBytes (w : UInt32) : List UInt8 :=
  [UInt8.ofNat w.toNat, UInt8.ofNat (w.toNat / 0x100), UInt8.ofNat (w.toNat / 0x10000),
    UInt8.ofNat (w.toNat / 0x1000000)]

/-- The word with the given bytes, the lowest first. -/
def ofBytes (b₀ b₁ b₂ b₃ : UInt8) : UInt32 :=
  UInt32.ofNat (b₀.toNat + 0x100 * b₁.toNat + 0x10000 * b₂.toNat + 0x1000000 * b₃.toNat)

/-- The index that a signed word stands for, if it is not negative. -/
def index? (i : Int32) : Option Nat :=
  if 0 ≤ i then some i.toInt.toNat else none

theorem index?_eq_some_iff {x : Int32} {i : Nat} :
    index? x = some i ↔ i < 0x80000000 ∧ x = Int32.ofNat i := by
  unfold index?
  constructor
  · intro h
    split at h
    · rename_i hx
      obtain rfl := Option.some.inj h
      rw [Int32.le_iff_toInt_le, Int32.toInt_zero] at hx
      have hlt := x.toInt_lt
      refine ⟨by omega, ?_⟩
      apply Int32.toInt_inj.1
      rw [Int32.toInt_ofNat_of_lt (by omega), Int.toNat_of_nonneg hx]
    · cases h
  · rintro ⟨hi, rfl⟩
    have hint : (Int32.ofNat i).toInt = i := Int32.toInt_ofNat_of_lt (by omega)
    rw [if_pos (by rw [Int32.le_iff_toInt_le, hint]; simp), hint]
    simp

theorem index?_of_nonneg {x : Int32} (h : 0 ≤ x.toInt) : index? x = some x.toInt.toNat := by
  rw [index?, if_pos (by rwa [Int32.le_iff_toInt_le, Int32.toInt_zero])]

theorem index?_of_neg {x : Int32} (h : x.toInt < 0) : index? x = none := by
  rw [index?, if_neg (by rw [Int32.le_iff_toInt_le, Int32.toInt_zero]; omega)]

/-- The index where `len` places start, if all of them are among the first `size` ones. -/
theorem filter_index? (x : Int32) (len size : Nat) :
    ((index? x).filter fun i => i + len ≤ size) =
      if 0 ≤ x.toInt ∧ x.toInt + len ≤ size then some x.toInt.toNat else none := by
  rcases Int.lt_or_le x.toInt 0 with hneg | hnonneg
  · rw [index?_of_neg hneg, Option.filter_none, if_neg fun h => Int.not_le.2 hneg h.1]
  · have hle : x.toInt.toNat + len ≤ size ↔ 0 ≤ x.toInt ∧ x.toInt + len ≤ size := by omega
    rw [index?_of_nonneg hnonneg, Option.filter_some]
    simp only [hle, decide_eq_true_eq]

theorem ofBytes_toBytes (w : UInt32) :
    ofBytes (UInt8.ofNat w.toNat) (UInt8.ofNat (w.toNat / 0x100))
      (UInt8.ofNat (w.toNat / 0x10000)) (UInt8.ofNat (w.toNat / 0x1000000)) = w := by
  have h := w.toNat_lt
  apply UInt32.toNat_inj.1
  simp only [ofBytes, UInt8.toNat_ofNat', UInt32.toNat_ofNat']
  omega

theorem toBytes_ofBytes (b₀ b₁ b₂ b₃ : UInt8) :
    toBytes (ofBytes b₀ b₁ b₂ b₃) = [b₀, b₁, b₂, b₃] := by
  have h₀ := b₀.toNat_lt
  have h₁ := b₁.toNat_lt
  have h₂ := b₂.toNat_lt
  have h₃ := b₃.toNat_lt
  have hbyte {n : Nat} {b : UInt8} (h : n % 256 = b.toNat) : UInt8.ofNat n = b := by
    apply UInt8.toNat_inj.1
    rwa [UInt8.toNat_ofNat']
  simp only [toBytes, ofBytes, UInt32.toNat_ofNat', List.cons.injEq, and_true]
  refine ⟨hbyte ?_, hbyte ?_, hbyte ?_, hbyte ?_⟩
  all_goals omega

/-- The digits of a word to the base 256 are its bytes. -/
theorem toNat_getElem?_toBytes (w : UInt32) {k : Nat} (h : k < 4) :
    (toBytes w)[k]?.map UInt8.toNat = some (w.toNat >>> (8 * k) % 256) := by
  have hk : k = 0 ∨ k = 1 ∨ k = 2 ∨ k = 3 := by omega
  rcases hk with rfl | rfl | rfl | rfl <;> simp [toBytes, Nat.shiftRight_eq_div_pow]

end RegisterMachine.Word
