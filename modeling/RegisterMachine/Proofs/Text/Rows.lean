import RegisterMachine.Numeric.Single
import RegisterMachine.Proofs.Numeric.Integer
import RegisterMachine.Proofs.Text.Lines
import RegisterMachine.Proofs.Text.Pieces
import RegisterMachine.Text.Escaped

/-!
# Texts of one row

A text without line ends is a row: rows written behind one another are the lines of the result.
Numerals and escaped literals are rows, whatever number or literal they show.
-/

namespace RegisterMachine

namespace Text

variable {s t : Text} {ls : List Text} {c : Char}

/-- A text without line ends. -/
def IsRow (s : Text) : Prop :=
  ∀ c ∈ s, c ≠ '\n' ∧ c ≠ '\r'

@[simp] theorem isRow_nil : IsRow [] := by
  simp [IsRow]

@[simp] theorem isRow_cons : IsRow (c :: s) ↔ (c ≠ '\n' ∧ c ≠ '\r') ∧ IsRow s :=
  List.forall_mem_cons

@[simp] theorem isRow_append : IsRow (s ++ t) ↔ IsRow s ∧ IsRow t :=
  List.forall_mem_append

theorem IsRow.of_subset (h : IsRow s) (hsub : t ⊆ s) : IsRow t :=
  fun c hc => h c (hsub hc)

theorem isRow_replicate (n : Nat) (hc : c ≠ '\n' ∧ c ≠ '\r') : IsRow (List.replicate n c) :=
  fun _ hmem => List.eq_of_mem_replicate hmem ▸ hc

theorem isRow_of_isBlank_eq_false (h : ∀ c ∈ s, isBlank c = false) : IsRow s := by
  refine fun c hc => ⟨?_, ?_⟩ <;> rintro rfl <;> exact absurd (h _ hc) (by decide)

theorem isRow_of_isAlphanum (h : ∀ c ∈ s, c.isAlphanum) : IsRow s :=
  isRow_of_isBlank_eq_false fun c hc => isBlank_eq_false_of_isAlphanum (by simp [h c hc])

theorem isRow_join {sep : Text} (hsep : IsRow sep) (h : ∀ l ∈ ls, IsRow l) :
    IsRow (join sep ls) := by
  intro c hc
  rcases mem_of_mem_join hc with hc | ⟨l, hl, hc⟩
  · exact hsep c hc
  · exact h l hl c hc

theorem isRow_trimEnd (h : IsRow s) : IsRow (trimEnd s) := by
  obtain ⟨after, hs, -⟩ := exists_append_dropEndWhile isBlank s
  rw [hs] at h
  exact (isRow_append.1 h).1

theorem isRow_padEnd (width : Nat) (h : IsRow s) : IsRow (padEnd width s) :=
  isRow_append.2 ⟨h, isRow_replicate _ (by decide)⟩

theorem dropReturn_of_isRow (h : IsRow s) : dropReturn s = s := by
  induction s with
  | nil => rfl
  | cons c s ih =>
    obtain ⟨⟨-, hc⟩, hs⟩ := isRow_cons.1 h
    simp [dropReturn, hc, ih hs]

/-- Rows written behind one another are the lines of the text. -/
theorem lines_unlines_of_isRow (h : ∀ l ∈ ls, IsRow l) : lines (unlines ls) = ls := by
  rw [lines_unlines fun l hl hmem => (h l hl _ hmem).1 rfl]
  exact (List.map_congr_left fun l hl => dropReturn_of_isRow (h l hl)).trans (List.map_id ls)

end Text

section Numerals

open Text

variable {ds : Text} {c : Char}

theorem Numeral.isRow_ofNat (n : Nat) : IsRow (ofNat n) :=
  isRow_of_isAlphanum fun _ => isAlphanum_of_mem_ofNat

theorem Numeral.isRow_ofInt (z : Int) : IsRow (ofInt z) := by
  unfold ofInt
  split <;> simp [isRow_ofNat]

theorem Numeral.isRow_padded (width n : Nat) : IsRow (padded width n) :=
  isRow_append.2 ⟨isRow_replicate _ (by decide), isRow_ofNat n⟩

theorem Numeral.isRow_hex (n : Nat) : IsRow (hex n) := by
  have hdigit : ∀ d < 16, IsRow [Nat.digitChar d] := by
    have halphanum : ∀ d < 16, (Nat.digitChar d).isAlphanum = true := by decide
    exact fun d hd => isRow_of_isAlphanum (List.forall_mem_singleton.2 (halphanum d hd))
  induction n using Nat.strongRecOn with
  | ind n ih =>
    unfold hex at *
    by_cases hn : n < 16
    · rw [Nat.toDigits_of_lt_base hn]
      exact hdigit n hn
    · rw [Nat.toDigits_of_base_le (by decide) (by omega), isRow_append]
      exact ⟨ih _ (by omega), hdigit _ (Nat.mod_lt _ (by decide))⟩

theorem Decimal.isRow_positional (pointZero : Bool) (point : Int) (h : IsRow ds) :
    IsRow (positional pointZero ds point) := by
  have hzeros (n : Nat) : IsRow (List.replicate n '0') := isRow_replicate n (by decide)
  unfold positional
  split
  · simp [hzeros, h]
  · split
    · simp only [isRow_append]
      refine ⟨⟨h, hzeros _⟩, ?_⟩
      split <;> simp
    · simp only [isRow_append, isRow_cons]
      exact ⟨h.of_subset (List.take_subset _ _), by decide, h.of_subset (List.drop_subset _ _)⟩

theorem Decimal.isRow_scientific (plusSign : Bool) (point : Int) (h : IsRow ds) :
    IsRow (scientific plusSign ds point) := by
  have htail : IsRow ('e' :: ((if plusSign && 1 < point then ['+'] else []) ++
      Numeral.ofInt (point - 1))) := by
    simp only [isRow_cons, isRow_append]
    refine ⟨by decide, ?_, Numeral.isRow_ofInt _⟩
    split <;> simp
  match ds, h with
  | [], _ => exact htail
  | [d], h => exact isRow_cons.2 ⟨(isRow_cons.1 h).1, htail⟩
  | d :: e :: r, h =>
    obtain ⟨hd, hr⟩ := isRow_cons.1 h
    exact isRow_cons.2 ⟨hd, isRow_cons.2 ⟨by decide, isRow_append.2 ⟨hr, htail⟩⟩⟩

theorem Decimal.isRow_render (layout : Layout) (d : Decimal) : IsRow (d.render layout) := by
  have hdigits : IsRow d.normalize.1 := by
    obtain ⟨after, hs, -⟩ := exists_append_dropEndWhile (· == '0') (Numeral.ofNat d.digits)
    have hrow := Numeral.isRow_ofNat d.digits
    rw [hs] at hrow
    exact (isRow_append.1 hrow).1
  unfold render
  dsimp only
  split
  · exact isRow_scientific _ _ hdigits
  · exact isRow_positional _ _ hdigits

theorem Single.isRow_text (layout : Decimal.Layout) (bits : UInt32) : IsRow (text layout bits) := by
  have hmagnitude (n : Nat) : IsRow (magnitudeText layout n) := by
    unfold magnitudeText
    split
    · simp
    · split
      · split <;> simp
      · exact Decimal.isRow_render _ _
  unfold text
  dsimp only
  split
  · simp
  · split
    · simp [hmagnitude]
    · exact hmagnitude _

/-- A line end in a literal is shown by a letter. -/
theorem Text.isRow_escapeChar (c : Char) : IsRow (escapeChar c) := by
  have hletter : ∀ {l}, escapeLetter? c = some l → IsRow [l] := by
    intro l hl
    unfold escapeLetter? at hl
    split at hl <;> cases hl <;> simp
  unfold escapeChar
  split
  · rename_i l hl
    exact isRow_cons.2 ⟨by decide, hletter hl⟩
  · rename_i hnone
    split
    · simp [Numeral.isRow_hex]
    · refine isRow_cons.2 ⟨⟨?_, ?_⟩, isRow_nil⟩ <;> rintro rfl <;> cases hnone

theorem Text.isRow_escaped (s : Text) : IsRow (escaped s) := by
  have hs : IsRow (s.flatMap escapeChar) := by
    intro c hc
    obtain ⟨d, -, hd⟩ := List.mem_flatMap.1 hc
    exact isRow_escapeChar d c hd
  simp [escaped, hs]

end Numerals

end RegisterMachine
