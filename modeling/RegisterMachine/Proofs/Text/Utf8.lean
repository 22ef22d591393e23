import RegisterMachine.Text.Utf8

/-!
# Encoded text reads back

The bytes of a text scan to its characters, none of them invalid. Every character takes one to four
bytes; the leading byte tells how many follow, and the range that it sets for the first of them
holds for the bytes of a character, as these are never longer than needed and no surrogate is a
character. An ASCII character is a byte that stands in no other encoding, so whoever looks for it in
the bytes finds it where it is in the text (`ofNat_mem_encode_iff`).
-/

namespace RegisterMachine.Utf8

variable {n count acc lo hi bits code : Nat} {b : UInt8} {bs rest : List UInt8}

theorem continuation_ofNat (hlo : lo ≤ n) (hhi : n ≤ hi) (hn : n < 256) :
    continuation (count + 1) acc lo hi (UInt8.ofNat n :: bs) =
      continuation count (acc * 0x40 + n % 0x40) 0x80 0xBF bs := by
  rw [continuation, UInt8.toNat_ofNat_of_lt' hn, if_pos ⟨hlo, hhi⟩]

/-- A byte behind the first continuation byte carries six bits and may have any of its values. -/
theorem continuation_low :
    continuation (count + 1) acc 0x80 0xBF (UInt8.ofNat (0x80 + n % 0x40) :: bs) =
      continuation count (acc * 0x40 + n % 0x40) 0x80 0xBF bs := by
  have hbits : (0x80 + n % 0x40) % 0x40 = n % 0x40 := by omega
  rw [continuation_ofNat (by omega) (by omega) (by omega), hbits]

theorem scan_of_continuation (hn : n < 256) (hl : lead? n = some (count, bits, lo, hi))
    (hc : continuation count bits lo hi bs = (some code, rest)) :
    scan (UInt8.ofNat n :: bs) = some (Char.ofNat code) :: scan rest := by
  have hnext : next (UInt8.ofNat n) bs = (some (Char.ofNat code), rest) := by
    simp [next, UInt8.toNat_ofNat_of_lt' hn, hl, hc]
  rw [scan, hnext]

theorem lead?_one (h : n < 0x80) : lead? n = some (0, n, 0, 0) := by
  simp [lead?, h]

theorem lead?_two (h₁ : 0x80 ≤ n) (h₂ : n < 0x800) :
    lead? (0xC0 + n / 0x40) = some (1, n / 0x40, 0x80, 0xBF) := by
  unfold lead?
  rw [if_neg (by omega), if_neg (by omega), if_pos (by omega), Nat.add_sub_cancel_left]

/-- The first continuation byte is in the range that the leading byte asks for: below 0x800 the
character would have two bytes, and from 0xD800 to 0xDFFF there is none. -/
theorem lead?_three (h₁ : 0x800 ≤ n) (h₂ : n < 0x10000) (hs : n < 0xD800 ∨ 0xDFFF < n) :
    ∃ lo hi, lead? (0xE0 + n / 0x1000) = some (2, n / 0x1000, lo, hi) ∧
      lo ≤ 0x80 + n / 0x40 % 0x40 ∧ 0x80 + n / 0x40 % 0x40 ≤ hi := by
  unfold lead?
  rw [if_neg (by omega), if_neg (by omega), if_neg (by omega)]
  by_cases hE0 : n / 0x1000 = 0
  · refine ⟨0xA0, 0xBF, ?_, by omega, by omega⟩
    rw [if_pos (by omega), hE0]
  rw [if_neg (by omega)]
  by_cases hED : n / 0x1000 = 0xD
  · refine ⟨0x80, 0x9F, ?_, by omega, by omega⟩
    rw [if_pos (by omega), hED]
  · refine ⟨0x80, 0xBF, ?_, by omega, by omega⟩
    rw [if_neg (by omega), if_pos (by omega), Nat.add_sub_cancel_left]

theorem lead?_four (h₁ : 0x10000 ≤ n) (h₂ : n < 0x110000) :
    ∃ lo hi, lead? (0xF0 + n / 0x40000) = some (3, n / 0x40000, lo, hi) ∧
      lo ≤ 0x80 + n / 0x1000 % 0x40 ∧ 0x80 + n / 0x1000 % 0x40 ≤ hi := by
  unfold lead?
  rw [if_neg (by omega), if_neg (by omega), if_neg (by omega), if_neg (by omega),
    if_neg (by omega), if_neg (by omega)]
  by_cases hF0 : n / 0x40000 = 0
  · refine ⟨0x90, 0xBF, ?_, by omega, by omega⟩
    rw [if_pos (by omega), hF0]
  rw [if_neg (by omega)]
  by_cases hF4 : n / 0x40000 = 4
  · refine ⟨0x80, 0x8F, ?_, by omega, by omega⟩
    rw [if_neg (by omega), if_pos (by omega), hF4]
  · refine ⟨0x80, 0xBF, ?_, by omega, by omega⟩
    rw [if_pos (by omega), Nat.add_sub_cancel_left]

theorem scan_encodeChar (c : Char) (bs : List UInt8) :
    scan (encodeChar c ++ bs) = some c :: scan bs := by
  have hchar {code : Nat} (h : code = c.toNat) : Char.ofNat code = c := by
    rw [h, Char.ofNat_toNat]
  have hvalid : c.toNat < 0xD800 ∨ 0xDFFF < c.toNat ∧ c.toNat < 0x110000 := c.valid
  unfold encodeChar
  dsimp only
  generalize c.toNat = n at hchar hvalid
  split
  · rename_i h
    have hc : continuation 0 n 0 0 bs = (some n, bs) := rfl
    rw [List.singleton_append, scan_of_continuation (by omega) (lead?_one h) hc, hchar rfl]
  split
  · rename_i h₁ h₂
    have hc : continuation 1 (n / 0x40) 0x80 0xBF (UInt8.ofNat (0x80 + n % 0x40) :: bs) =
        (some (n / 0x40 * 0x40 + n % 0x40), bs) := by
      rw [continuation_low, continuation]
    have hl := lead?_two (Nat.le_of_not_lt h₁) h₂
    rw [List.cons_append, List.singleton_append, scan_of_continuation (by omega) hl hc,
      hchar (by omega)]
  split
  · rename_i _ h₁ h₂
    obtain ⟨lo, hi, hl, hlo, hhi⟩ := lead?_three (Nat.le_of_not_lt h₁) h₂ (by omega)
    have hc : continuation 2 (n / 0x1000) lo hi (UInt8.ofNat (0x80 + n / 0x40 % 0x40) ::
        UInt8.ofNat (0x80 + n % 0x40) :: bs) =
          (some ((n / 0x1000 * 0x40 + (0x80 + n / 0x40 % 0x40) % 0x40) * 0x40 + n % 0x40), bs) := by
      rw [continuation_ofNat hlo hhi (by omega), continuation_low, continuation]
    have hlead : 0xE0 + n / 0x1000 < 256 := by omega
    simp only [List.cons_append, List.nil_append]
    rw [scan_of_continuation hlead hl hc, hchar (by omega)]
  · rename_i _ _ h₁
    obtain ⟨lo, hi, hl, hlo, hhi⟩ := lead?_four (Nat.le_of_not_lt h₁) (by omega)
    have hc : continuation 3 (n / 0x40000) lo hi (UInt8.ofNat (0x80 + n / 0x1000 % 0x40) ::
        UInt8.ofNat (0x80 + n / 0x40 % 0x40) :: UInt8.ofNat (0x80 + n % 0x40) :: bs) =
          (some (((n / 0x40000 * 0x40 + (0x80 + n / 0x1000 % 0x40) % 0x40) * 0x40 +
            n / 0x40 % 0x40) * 0x40 + n % 0x40), bs) := by
      rw [continuation_ofNat hlo hhi (by omega), continuation_low, continuation_low, continuation]
    have hlead : 0xF0 + n / 0x40000 < 256 := by omega
    simp only [List.cons_append, List.nil_append]
    rw [scan_of_continuation hlead hl hc, hchar (by omega)]

theorem scan_encode (s : Text) : scan (encode s) = s.map some := by
  induction s with
  | nil => rw [encode, List.flatMap_nil, scan, List.map_nil]
  | cons c s ih =>
    rw [encode, List.flatMap_cons, scan_encodeChar, List.map_cons]
    exact congrArg _ ih

theorem decode?_encode (s : Text) : decode? (encode s) = some s := by
  have h : s.mapM (fun c => (pure (id c) : Option Char)) = pure (s.map id) := List.mapM_pure
  rw [List.map_id] at h
  rw [decode?, scan_encode, List.mapM_map]
  exact h

theorem encode_ne_nil {s : Text} (h : s ≠ []) : encode s ≠ [] := by
  intro hs
  have hscan := scan_encode s
  rw [hs, scan] at hscan
  exact h (List.map_eq_nil_iff.1 hscan.symm)

theorem decodeLossy_encode (s : Text) : decodeLossy (encode s) = s := by
  rw [decodeLossy, scan_encode, List.map_map]
  exact List.map_id s

/-- The bytes of a character that takes several of them are all above the ASCII range. -/
theorem le_of_mem_encodeChar {c : Char} (hc : 0x80 ≤ c.toNat) (hb : b ∈ encodeChar c) :
    0x80 ≤ b.toNat := by
  have hvalid : c.toNat < 0xD800 ∨ 0xDFFF < c.toNat ∧ c.toNat < 0x110000 := c.valid
  have hle {k : Nat} (hk : 0x80 ≤ k ∧ k < 256) (hb : b = UInt8.ofNat k) : 0x80 ≤ b.toNat := by
    rw [hb, UInt8.toNat_ofNat_of_lt' hk.2]
    exact hk.1
  unfold encodeChar at hb
  dsimp only at hb
  generalize c.toNat = n at hc hvalid hb
  rw [if_neg (by omega)] at hb
  split at hb
  · simp only [List.mem_cons, List.not_mem_nil, or_false] at hb
    rcases hb with hb | hb <;> exact hle (by omega) hb
  split at hb
  · simp only [List.mem_cons, List.not_mem_nil, or_false] at hb
    rcases hb with hb | hb | hb <;> exact hle (by omega) hb
  · simp only [List.mem_cons, List.not_mem_nil, or_false] at hb
    rcases hb with hb | hb | hb | hb <;> exact hle (by omega) hb

/-- An ASCII character is one byte, and no other character has that byte in its encoding. -/
theorem ofNat_mem_encode_iff {c : Char} {s : Text} (hc : c.toNat < 0x80) :
    UInt8.ofNat c.toNat ∈ encode s ↔ c ∈ s := by
  have hself : encodeChar c = [UInt8.ofNat c.toNat] := if_pos hc
  rw [encode, List.mem_flatMap]
  constructor
  · rintro ⟨d, hd, hmem⟩
    rcases Nat.lt_or_ge d.toNat 0x80 with hlt | hge
    · have hother : encodeChar d = [UInt8.ofNat d.toNat] := if_pos hlt
      rw [hother, List.mem_singleton] at hmem
      have hcode := congrArg UInt8.toNat hmem
      rw [UInt8.toNat_ofNat_of_lt' (Nat.lt_trans hc (by decide)),
        UInt8.toNat_ofNat_of_lt' (Nat.lt_trans hlt (by decide))] at hcode
      rwa [Char.toNat_inj.1 hcode]
    · have hle := le_of_mem_encodeChar hge hmem
      rw [UInt8.toNat_ofNat_of_lt' (Nat.lt_trans hc (by decide))] at hle
      omega
  · exact fun h => ⟨c, h, by rw [hself]; exact List.mem_singleton_self _⟩

end RegisterMachine.Utf8
