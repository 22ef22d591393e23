import Mathlib.Data.Nat.Digits.Defs
import Mathlib.Tactic.IntervalCases
import Mathlib.Tactic.Ring
import RegisterMachine.Numeric.Single
import RegisterMachine.Proofs.Result

/-!
# What numerals stand for

`Numeral.Spells` says which number a run of digits writes in a base, the most significant digit
first. The readers of numerals accept exactly what spells a number in range, with the signs that
each of them takes (`unsigned_eq_ok_iff`, `int32_eq_ok_iff`).
-/

namespace RegisterMachine

namespace Numeral

/-- A character writes a digit of a base of at most sixteen, in either case. -/
def IsDigit (base : Nat) (c : Char) (d : Nat) : Prop :=
  d < base ∧ ("0123456789abcdef".toList[d]? = some c ∨ "0123456789ABCDEF".toList[d]? = some c)

/-- The values of the characters of a text as digits of a base. -/
def HasDigits (base : Nat) : Text → List Nat → Prop :=
  List.Forall₂ (IsDigit base)

/-- A text of digits of a base, at least one of them, and the number that it writes. -/
def Spells (base : Nat) (s : Text) (n : Nat) : Prop :=
  s ≠ [] ∧ ∃ ds, HasDigits base s ds ∧ n = Nat.ofDigits base ds.reverse

variable {base limit acc n d : Nat} {excess : NumeralError} {c : Char} {s : Text} {ds : List Nat}

/-- The character that writes `d` in a run of characters of which `first` writes `k`. -/
theorem eq_ofNat_of_le {first : Char} {k : Nat} (hfirst : first ≤ c)
    (hd : c.toNat - first.toNat + k = d) : k ≤ d ∧ c = Char.ofNat (first.toNat + (d - k)) := by
  have hle : first.toNat ≤ c.toNat := hfirst
  have hc : first.toNat + (d - k) = c.toNat := by omega
  exact ⟨by omega, by rw [hc, Char.ofNat_toNat]⟩

theorem digit?_eq_some_iff (hbase : base ≤ 16) : digit? base c = some d ↔ IsDigit base c d := by
  constructor
  · intro h
    obtain ⟨h, hd⟩ := Option.filter_eq_some_iff.1 h
    replace hd : d < base := of_decide_eq_true hd
    have hlt : d < 16 := Nat.lt_of_lt_of_le hd hbase
    refine ⟨hd, ?_⟩
    -- one run of characters for each branch, too short for more than a look at its members
    split at h
    · rename_i hdigit
      simp only [Char.isDigit, ge_iff_le, Bool.and_eq_true, decide_eq_true_eq] at hdigit
      have hvalue : c.toNat - '0'.toNat = d := Option.some.inj h
      have hten : d < 10 := by
        have hnine : c.toNat ≤ '0'.toNat + 9 := hdigit.2
        omega
      obtain ⟨-, rfl⟩ := eq_ofNat_of_le (k := 0) hdigit.1 hvalue
      clear * - hten
      decide +revert
    · split at h
      · rename_i hletter
        obtain ⟨hle, rfl⟩ := eq_ofNat_of_le hletter.1 (Option.some.inj h)
        clear * - hlt hle
        decide +revert
      · split at h
        · rename_i hletter
          obtain ⟨hle, rfl⟩ := eq_ofNat_of_le hletter.1 (Option.some.inj h)
          clear * - hlt hle
          decide +revert
        · cases h
  · rintro ⟨hd, h⟩
    refine Option.filter_eq_some_iff.2 ⟨?_, decide_eq_true hd⟩
    have hlt : d < 16 := Nat.lt_of_lt_of_le hd hbase
    interval_cases d <;> rcases h with h | h <;> cases h <;> rfl

theorem isDigit_ten_iff : IsDigit 10 c d ↔ c.isDigit ∧ d = c.toNat - '0'.toNat := by
  rw [← digit?_eq_some_iff (by decide)]
  unfold digit?
  by_cases hc : c.isDigit
  · have hle : c.toNat ≤ '9'.toNat := by
      simp only [Char.isDigit, ge_iff_le, Bool.and_eq_true, decide_eq_true_eq] at hc
      exact hc.2
    have hlt : c.toNat - '0'.toNat < 10 := by
      have hnine : '9'.toNat = '0'.toNat + 9 := rfl
      omega
    simp only [hc, if_true, Option.filter_some, hlt, decide_true, Option.some.injEq, true_and]
    exact eq_comm
  · -- a letter counts ten or more
    simp only [hc, if_false, Bool.false_eq_true, false_and, iff_false]
    have hletter (v : Nat) : (some (v + 10)).filter (fun x => decide (x < 10)) ≠ some d := by
      rw [Option.filter_some]
      simp
    split
    · exact hletter _
    · split
      · exact hletter _
      · simp

theorem IsDigit.mem (h : IsDigit base c d) : c ∈ "0123456789abcdefABCDEF".toList := by
  rcases h.2 with h | h
  · exact List.mem_append_left "ABCDEF".toList (List.mem_of_getElem? h)
  · have hsub : "0123456789ABCDEF".toList ⊆ "0123456789abcdefABCDEF".toList := by decide
    exact hsub (List.mem_of_getElem? h)

theorem HasDigits.mem {ds : List Nat} (h : HasDigits base s ds) (hc : c ∈ s) :
    c ∈ "0123456789abcdefABCDEF".toList := by
  obtain ⟨d, -, hd⟩ := exists_mem_of_forall₂ h.flip hc
  exact IsDigit.mem hd

theorem Spells.mem (h : Spells base s n) (hc : c ∈ s) : c ∈ "0123456789abcdefABCDEF".toList := by
  obtain ⟨-, ds, hds, -⟩ := h
  exact hds.mem hc

@[simp] theorem not_spells_nil : ¬ Spells base [] n :=
  fun h => h.1 rfl

@[simp] theorem not_spells_plus : ¬ Spells base ('+' :: s) n :=
  fun h => absurd (h.mem List.mem_cons_self) (by decide)

@[simp] theorem not_spells_minus : ¬ Spells base ('-' :: s) n :=
  fun h => absurd (h.mem List.mem_cons_self) (by decide)

theorem hasDigits_ten_iff {ds : List Nat} :
    HasDigits 10 s ds ↔ s.all Char.isDigit ∧ ds = s.map fun c => c.toNat - '0'.toNat := by
  induction s generalizing ds with
  | nil => simp [HasDigits]
  | cons c s ih =>
    rw [HasDigits, List.forall₂_cons_left_iff, List.all_cons, Bool.and_eq_true, List.map_cons]
    constructor
    · rintro ⟨d, ds, hd, hds, rfl⟩
      obtain ⟨hc, rfl⟩ := isDigit_ten_iff.1 hd
      obtain ⟨hs, rfl⟩ := ih.1 hds
      exact ⟨⟨hc, hs⟩, rfl⟩
    · rintro ⟨⟨hc, hs⟩, rfl⟩
      exact ⟨_, _, isDigit_ten_iff.2 ⟨hc, rfl⟩, ih.2 ⟨hs, rfl⟩, rfl⟩

/-- A decimal numeral has the value that a run of decimal digits is read with. -/
theorem spells_ten_iff :
    Spells 10 s n ↔ s ≠ [] ∧ s.all Char.isDigit ∧ n = Single.digitsValue s := by
  have hvalue : Nat.ofDigits 10 (s.map fun c => c.toNat - '0'.toNat).reverse =
      Single.digitsValue s := by
    rw [Nat.ofDigits_eq_foldr, List.foldr_reverse, List.foldl_map, Single.digitsValue]
    simp only [Nat.cast_id, Nat.mul_comm, Nat.add_comm]
  simp only [Spells, hasDigits_ten_iff, and_assoc, exists_and_left, exists_eq_left, hvalue]

/-- A number is written with the digits that it is read from. -/
theorem spells_ofNat (n : Nat) : Spells 10 (ofNat n) n := by
  have hvalue : Single.digitsValue (ofNat n) = n := by
    calc Single.digitsValue (ofNat n) = Nat.ofDigitChars 10 (Nat.toDigits 10 n) 0 := by
          simp only [Single.digitsValue, ofNat, Nat.ofDigitChars_eq_foldl, Nat.mul_comm]
      _ = n := Nat.ofDigitChars_ten_toDigits
  refine spells_ten_iff.2 ⟨Nat.toDigits_ne_nil, List.all_eq_true.2 fun c hc => ?_, hvalue.symm⟩
  exact Nat.isDigit_of_mem_toDigits (by decide) (by decide) hc

theorem ofInt_ne_nil (z : Int) : ofInt z ≠ [] := by
  unfold ofInt
  split
  · exact List.cons_ne_nil _ _
  · exact Nat.toDigits_ne_nil

theorem isAlphanum_of_mem_ofNat (h : c ∈ ofNat n) : c.isAlphanum := by
  have hdigit := Nat.isDigit_of_mem_toDigits (by decide) (by decide) h
  simp [Char.isAlphanum, hdigit]

/-- An integer is written with digits and a minus sign. -/
theorem isAlphanum_of_mem_ofInt {z : Int} (h : c ∈ ofInt z) : c.isAlphanum ∨ c = '-' := by
  unfold ofInt at h
  split at h
  · rcases List.mem_cons.1 h with rfl | h
    · exact .inr rfl
    · exact .inl (isAlphanum_of_mem_ofNat h)
  · exact .inl (isAlphanum_of_mem_ofNat h)

/-- The first digit counts most. -/
theorem ofDigits_reverse_cons :
    Nat.ofDigits base (d :: ds).reverse = d * base ^ ds.length + Nat.ofDigits base ds.reverse := by
  rw [List.reverse_cons, Nat.ofDigits_append, Nat.ofDigits_singleton, List.length_reverse]
  ring

/-- A reader of digits goes on from the number that it has read. -/
theorem digits_eq_ok_iff (hbase : 0 < base) (hle : base ≤ 16) (hacc : acc ≤ limit) :
    digits base limit excess acc s = .ok n ↔
      n ≤ limit ∧ ∃ ds, HasDigits base s ds ∧
        n = acc * base ^ ds.length + Nat.ofDigits base ds.reverse := by
  induction s generalizing acc with
  | nil =>
    simp only [digits, Except.ok.injEq, HasDigits, List.forall₂_nil_left_iff]
    constructor
    · rintro rfl
      exact ⟨hacc, [], rfl, by simp⟩
    · rintro ⟨-, _, rfl, rfl⟩
      simp
  | cons c s ih =>
    rw [digits]
    cases hc : digit? base c with
    | none =>
      simp only [reduceCtorEq, false_iff]
      rintro ⟨-, _, hds, -⟩
      cases hds with
      | cons hd _ =>
        rw [(digit?_eq_some_iff hle).2 hd] at hc
        cases hc
    | some d =>
      have hdigit := (digit?_eq_some_iff hle).1 hc
      have hvalue (ds : List Nat) :
          acc * base ^ (d :: ds).length + Nat.ofDigits base (d :: ds).reverse =
            (acc * base + d) * base ^ ds.length + Nat.ofDigits base ds.reverse := by
        rw [ofDigits_reverse_cons, List.length_cons]
        ring
      have hcons (P : List Nat → Prop) :
          (∃ ds, HasDigits base (c :: s) ds ∧ P ds) ↔ ∃ ds, HasDigits base s ds ∧ P (d :: ds) := by
        constructor
        · rintro ⟨_, hds, hP⟩
          cases hds with
          | cons hd hds =>
            obtain rfl := Option.some.inj (hc.symm.trans ((digit?_eq_some_iff hle).2 hd))
            exact ⟨_, hds, hP⟩
        · rintro ⟨ds, hds, hP⟩
          exact ⟨d :: ds, .cons hdigit hds, hP⟩
      dsimp only
      rw [hcons]
      simp only [hvalue]
      split
      · rename_i hexcess
        simp only [reduceCtorEq, false_iff]
        rintro ⟨hn, ds, -, rfl⟩
        -- every further digit can only make the number greater
        have hpow : 1 ≤ base ^ ds.length := Nat.one_le_pow _ _ hbase
        have hle := Nat.le_mul_of_pos_right (acc * base + d) hpow
        omega
      · rename_i hlimit
        exact ih (Nat.le_of_not_lt hlimit)

theorem digits_zero_eq_ok_iff (hbase : 0 < base) (hle : base ≤ 16) (hs : s ≠ []) :
    digits base limit excess 0 s = .ok n ↔ n ≤ limit ∧ Spells base s n := by
  rw [digits_eq_ok_iff hbase hle (Nat.zero_le _)]
  simp [Spells, hs]

/-- An unsigned numeral may have a plus sign in front. -/
theorem unsigned_eq_ok_iff (hbase : 0 < base) (hle : base ≤ 16) :
    unsigned base limit s = .ok n ↔
      n ≤ limit ∧ (Spells base s n ∨ ∃ ds, s = '+' :: ds ∧ Spells base ds n) := by
  unfold unsigned
  split
  · simp
  · simp
  · rename_i s hs
    rw [digits_zero_eq_ok_iff hbase hle (by simpa using hs)]
    simp
  · rename_i hnil _ hplus
    rw [digits_zero_eq_ok_iff hbase hle hnil]
    have hne (ds : Text) : s ≠ '+' :: ds := fun h => hplus ds h
    simp [hne]

/-- A signed numeral stands for the word with the value that it spells. -/
theorem int32_eq_ok_iff {value : Int32} :
    int32 s = .ok value ↔
      (∃ n, (Spells 10 s n ∨ ∃ ds, s = '+' :: ds ∧ Spells 10 ds n) ∧ value.toInt = n) ∨
        ∃ ds n, s = '-' :: ds ∧ Spells 10 ds n ∧ value.toInt = -n := by
  have hpositive {s : Text} (hs : s ≠ []) :
      (digits 10 0x7FFFFFFF .tooLarge 0 s).map (fun n => Int32.ofInt n) = .ok value ↔
        ∃ n, Spells 10 s n ∧ value.toInt = n := by
    simp only [map_eq_ok_iff, bind_eq_ok_iff, pure_eq_ok_iff]
    constructor
    · rintro ⟨_, ⟨n, hdigits, rfl⟩, rfl⟩
      obtain ⟨hle, hn⟩ := (digits_zero_eq_ok_iff (by decide) (by decide) hs).1 hdigits
      exact ⟨n, hn, Int32.toInt_ofInt_of_le (by omega) (by omega)⟩
    · rintro ⟨n, hn, hvalue⟩
      have hlt := value.toInt_lt
      refine ⟨_, ⟨n, (digits_zero_eq_ok_iff (by decide) (by decide) hs).2 ⟨by omega, hn⟩, rfl⟩, ?_⟩
      rw [← hvalue, Int32.ofInt_toInt]
  have hnegative {s : Text} (hs : s ≠ []) :
      (digits 10 0x80000000 .tooSmall 0 s).map (fun n => Int32.ofInt (-n)) = .ok value ↔
        ∃ n, Spells 10 s n ∧ value.toInt = -n := by
    simp only [map_eq_ok_iff, bind_eq_ok_iff, pure_eq_ok_iff]
    constructor
    · rintro ⟨_, ⟨n, hdigits, rfl⟩, rfl⟩
      obtain ⟨hle, hn⟩ := (digits_zero_eq_ok_iff (by decide) (by decide) hs).1 hdigits
      exact ⟨n, hn, Int32.toInt_ofInt_of_le (by omega) (by omega)⟩
    · rintro ⟨n, hn, hvalue⟩
      have hle := value.le_toInt
      refine ⟨_, ⟨n, (digits_zero_eq_ok_iff (by decide) (by decide) hs).2 ⟨by omega, hn⟩, rfl⟩, ?_⟩
      rw [← hvalue, Int32.ofInt_toInt]
  unfold int32
  split
  · simp
  · simp
  · simp
  · rename_i s hs
    rw [hnegative (by simpa using hs)]
    simp
  · rename_i s hs
    rw [hpositive (by simpa using hs)]
    simp
  · rename_i hnil _ _ hminus hplus
    rw [hpositive hnil]
    have hne (ds : Text) : s ≠ '+' :: ds := fun h => hplus ds h
    have hne' (ds : Text) : s ≠ '-' :: ds := fun h => hminus ds h
    simp [hne, hne']

/-- Every word is read back from what is written for it, the least one included. -/
theorem int32_ofInt (value : Int32) : int32 (ofInt value.toInt) = .ok value := by
  have hdigits := spells_ofNat value.toInt.natAbs
  rw [int32_eq_ok_iff, ofInt]
  split
  · rename_i hneg
    exact .inr ⟨_, _, rfl, hdigits, by omega⟩
  · rename_i hnonneg
    exact .inl ⟨_, .inl hdigits, by omega⟩

end Numeral

end RegisterMachine
