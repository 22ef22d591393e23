import Mathlib.Data.Option.Basic
import RegisterMachine.Program.Opcode
import RegisterMachine.Program.Operand

/-!
# Letter case in tokens

A text in lower case is read like the text itself: mnemonics are looked up in lower case, and the
marks and digits of operands count the same in either case. A reader of a text is compared with the
same reader of the folded text, so that two texts with one folded form are read alike.
-/

namespace RegisterMachine

namespace Text

variable {c d : Char} {s t : Text}

/-- The letters that `Char.toLower` changes. -/
def capitals : Text :=
  "ABCDEFGHIJKLMNOPQRSTUVWXYZ".toList

theorem toLower_eq_or_mem_capitals (c : Char) : c.toLower = c ∨ c ∈ capitals := by
  by_cases h : 'A' ≤ c ∧ c ≤ 'Z'
  · right
    obtain ⟨k, hk, rfl⟩ : ∃ k < 26, c = Char.ofNat ('A'.toNat + k) := by
      have hle : 'A'.toNat ≤ c.toNat := h.1
      have hge : c.toNat ≤ 'A'.toNat + 25 := h.2
      refine ⟨c.toNat - 'A'.toNat, by omega, ?_⟩
      rw [Nat.add_sub_cancel' hle, Char.ofNat_toNat]
    clear h
    decide +revert
  · left
    exact dif_neg h

/-- What makes no difference between a capital and its small letter makes none between a character
and the character in lower case. -/
theorem apply_toLower {α : Type} {f : Char → α}
    (h : capitals.map (fun c => f c.toLower) = capitals.map f) (c : Char) : f c.toLower = f c := by
  rcases toLower_eq_or_mem_capitals c with hc | hc
  · rw [hc]
  · exact List.map_inj_left.1 h c hc

theorem iff_toLower {P : Char → Prop} [DecidablePred P]
    (h : capitals.map (fun c => decide (P c.toLower)) = capitals.map fun c => decide (P c))
    (c : Char) : P c.toLower ↔ P c :=
  decide_eq_decide.1 (apply_toLower (f := fun c => decide (P c)) h c)

@[simp] theorem isDigit_toLower (c : Char) : c.toLower.isDigit = c.isDigit :=
  apply_toLower (by decide) c

@[simp] theorem isBlank_toLower (c : Char) : isBlank c.toLower = isBlank c :=
  apply_toLower (by decide) c

theorem toLower_of_isDigit (h : c.isDigit) : c.toLower = c := by
  rcases toLower_eq_or_mem_capitals c with hc | hc
  · exact hc
  · have hall : capitals.all fun c => !c.isDigit := by decide
    have hfalse := List.all_eq_true.1 hall c hc
    rw [h] at hfalse
    cases hfalse

theorem isAlpha_of_mem_capitals (h : c ∈ capitals) : c.isAlpha ∧ c.toLower.isAlpha := by
  have hall : capitals.all fun c => c.isAlpha && c.toLower.isAlpha := by decide
  exact Bool.and_eq_true_iff.1 (List.all_eq_true.1 hall c h)

/-- Only letters have another case. -/
theorem toLower_eq_iff (hd : d.isAlpha = false) : c.toLower = d ↔ c = d := by
  rcases toLower_eq_or_mem_capitals c with hc | hc
  · rw [hc]
  · obtain ⟨hupper, hlower⟩ := isAlpha_of_mem_capitals hc
    constructor
    · rintro rfl
      exact absurd hlower (by simp [hd])
    · rintro rfl
      exact absurd hupper (by simp [hd])

@[simp] theorem toLower_toLower (c : Char) : c.toLower.toLower = c.toLower :=
  apply_toLower (by decide) c

@[simp] theorem foldCase_nil : foldCase [] = [] :=
  rfl

@[simp] theorem foldCase_cons (c : Char) (s : Text) : foldCase (c :: s) = c.toLower :: foldCase s :=
  rfl

@[simp] theorem foldCase_foldCase (s : Text) : foldCase (foldCase s) = foldCase s := by
  simp [foldCase]

@[simp] theorem foldCase_eq_nil_iff : foldCase s = [] ↔ s = [] :=
  List.map_eq_nil_iff

theorem mem_foldCase_iff (hd : d.isAlpha = false) : d ∈ foldCase s ↔ d ∈ s := by
  simp [foldCase, toLower_eq_iff hd]

@[simp] theorem all_isDigit_foldCase (s : Text) :
    (foldCase s).all Char.isDigit = s.all Char.isDigit := by
  simp [foldCase, Function.comp_def]

theorem foldCase_of_all_isDigit (h : s.all Char.isDigit) : foldCase s = s := by
  have hmap : s.map Char.toLower = s.map id :=
    List.map_congr_left fun c hc => toLower_of_isDigit (List.all_eq_true.1 h c hc)
  rw [foldCase, hmap, List.map_id]

@[simp] theorem takeWhile_isDigit_foldCase (s : Text) :
    (foldCase s).takeWhile Char.isDigit = s.takeWhile Char.isDigit := by
  induction s with
  | nil => rfl
  | cons c s ih =>
    rw [foldCase_cons, List.takeWhile_cons, List.takeWhile_cons, isDigit_toLower, ih]
    split
    · rename_i hc
      rw [toLower_of_isDigit hc]
    · rfl

@[simp] theorem dropWhile_isDigit_foldCase (s : Text) :
    (foldCase s).dropWhile Char.isDigit = foldCase (s.dropWhile Char.isDigit) := by
  induction s with
  | nil => rfl
  | cons c s ih =>
    rw [foldCase_cons, List.dropWhile_cons, List.dropWhile_cons, isDigit_toLower, ih]
    split <;> rfl

end Text

open Text

namespace Numeral

variable {base limit acc : Nat} {excess : NumeralError} {s : Text}

theorem digit?_toLower (hbase : base ∈ [10, 16]) (c : Char) :
    digit? base c.toLower = digit? base c := by
  have hall : ∀ base ∈ [10, 16],
      capitals.map (fun c => digit? base c.toLower) = capitals.map (digit? base) := by
    decide
  exact apply_toLower (hall base hbase) c

theorem digits_foldCase (hbase : base ∈ [10, 16]) :
    digits base limit excess acc (foldCase s) = digits base limit excess acc s := by
  induction s generalizing acc with
  | nil => rfl
  | cons c s ih => simp only [foldCase_cons, digits, digit?_toLower hbase, ih]

theorem unsigned_foldCase (hbase : base ∈ [10, 16]) :
    unsigned base limit (foldCase s) = unsigned base limit s := by
  have hdigits (c : Char) (s : Text) : digits base limit .tooLarge 0 (c.toLower :: foldCase s) =
      digits base limit .tooLarge 0 (c :: s) := digits_foldCase (s := c :: s) hbase
  cases s with
  | nil => rfl
  | cons c s =>
    by_cases hc : c = '+'
    · subst hc
      cases s with
      | nil => rfl
      | cons d s => exact hdigits d s
    · have hplus : c.toLower ≠ '+' := mt (toLower_eq_iff (by decide)).1 hc
      simp [unsigned, hplus, hc, hdigits]

theorem int32_foldCase (s : Text) : int32 (foldCase s) = int32 s := by
  have hdigits (limit : Nat) (excess : NumeralError) (c : Char) (s : Text) :
      digits 10 limit excess 0 (c.toLower :: foldCase s) = digits 10 limit excess 0 (c :: s) :=
    digits_foldCase (s := c :: s) (by decide)
  cases s with
  | nil => rfl
  | cons c s =>
    by_cases hc : c = '-' ∨ c = '+'
    · have hlower : c.toLower = c := by
        rcases hc with rfl | rfl <;> rfl
      rw [foldCase_cons, hlower]
      cases s with
      | nil => rfl
      | cons d s => rcases hc with rfl | rfl <;> simp [int32, hdigits]
    · obtain ⟨hminus, hplus⟩ := not_or.1 hc
      have hminus' : c.toLower ≠ '-' := mt (toLower_eq_iff (by decide)).1 hminus
      have hplus' : c.toLower ≠ '+' := mt (toLower_eq_iff (by decide)).1 hplus
      simp [int32, hminus, hplus, hminus', hplus', hdigits]

end Numeral

namespace Single

variable {s : Text}

theorem exponent?_foldCase (s : Text) : exponent? (foldCase s) = exponent? s := by
  have hdigits (negative : Bool) (ds : Text) :
      (if foldCase ds ≠ [] ∧ (foldCase ds).all Char.isDigit then
        some (if negative then -(digitsValue (foldCase ds) : Int) else digitsValue (foldCase ds))
      else none) =
      if ds ≠ [] ∧ ds.all Char.isDigit then
        some (if negative then -(digitsValue ds : Int) else digitsValue ds)
      else none := by
    by_cases hds : ds.all Char.isDigit
    · rw [foldCase_of_all_isDigit hds]
    · simp [hds]
  cases s with
  | nil => rfl
  | cons c s =>
    have hmark : c.toLower = 'e' ∨ c.toLower = 'E' ↔ c = 'e' ∨ c = 'E' :=
      iff_toLower (P := fun c => c = 'e' ∨ c = 'E') (by decide) c
    simp only [foldCase_cons, exponent?, hmark]
    refine ite_congr rfl (fun _ => ?_) fun _ => rfl
    cases s with
    | nil => rfl
    | cons d r =>
      by_cases hminus : d = '-'
      · subst hminus
        exact hdigits true r
      · by_cases hplus : d = '+'
        · subst hplus
          exact hdigits false r
        · have hminus' : d.toLower ≠ '-' := mt (toLower_eq_iff (by decide)).1 hminus
          have hplus' : d.toLower ≠ '+' := mt (toLower_eq_iff (by decide)).1 hplus
          simpa [hminus, hplus, hminus', hplus'] using hdigits false (d :: r)

theorem unsigned?_foldCase (s : Text) : unsigned? (foldCase s) = unsigned? s := by
  simp only [unsigned?, takeWhile_isDigit_foldCase, dropWhile_isDigit_foldCase]
  generalize s.dropWhile Char.isDigit = rest
  cases rest with
  | nil => rfl
  | cons c rest =>
    by_cases hc : c = '.'
    · subst hc
      have hpoint : foldCase ('.' :: rest) = '.' :: foldCase rest := rfl
      simp only [hpoint, takeWhile_isDigit_foldCase, dropWhile_isDigit_foldCase, exponent?_foldCase]
    · have hc' : c.toLower ≠ '.' := mt (toLower_eq_iff (by decide)).1 hc
      have hexponent := exponent?_foldCase (c :: rest)
      rw [foldCase_cons] at hexponent
      simp [hc, hc', hexponent]

theorem read?_foldCase (s : Text) : read? (foldCase s) = read? s := by
  cases s with
  | nil => rfl
  | cons c s =>
    have hcons := unsigned?_foldCase (c :: s)
    rw [foldCase_cons] at hcons
    by_cases hc : c = '-' ∨ c = '+'
    · have hlower : c.toLower = c := by
        rcases hc with rfl | rfl <;> rfl
      rw [foldCase_cons, hlower]
      rcases hc with rfl | rfl <;> simp only [read?, unsigned?_foldCase]
    · obtain ⟨hminus, hplus⟩ := not_or.1 hc
      have hminus' : c.toLower ≠ '-' := mt (toLower_eq_iff (by decide)).1 hminus
      have hplus' : c.toLower ≠ '+' := mt (toLower_eq_iff (by decide)).1 hplus
      simp [read?, hminus, hplus, hminus', hplus', hcons]

end Single

namespace Operand

theorem index?_foldCase (count : Nat) (s : Text) : index? count (foldCase s) = index? count s := by
  by_cases hs : s.all Char.isDigit
  · rw [foldCase_of_all_isDigit hs]
  · simp [index?, hs]

theorem hexDigits?_cons_cons (c d : Char) (s : Text) :
    hexDigits? (c :: d :: s) = if c = '0' ∧ (d = 'x' ∨ d = 'X') then some s else none := by
  unfold hexDigits?
  split <;> simp_all

theorem hexDigits?_foldCase (s : Text) : hexDigits? (foldCase s) = (hexDigits? s).map foldCase := by
  match s with
  | [] => rfl
  | [c] => simp [hexDigits?]
  | c :: d :: s =>
    have hzero : c.toLower = '0' ↔ c = '0' := toLower_eq_iff (by decide)
    have hmark : d.toLower = 'x' ∨ d.toLower = 'X' ↔ d = 'x' ∨ d = 'X' :=
      iff_toLower (P := fun c => c = 'x' ∨ c = 'X') (by decide) d
    simp only [foldCase_cons, hexDigits?_cons_cons, hzero, hmark]
    split <;> rfl

theorem readImmediate_foldCase (token : Text) :
    readImmediate (foldCase token) = readImmediate token := by
  have hpoint : '.' ∈ foldCase token ↔ '.' ∈ token := mem_foldCase_iff (by decide)
  have hint := Numeral.int32_foldCase token
  have hfloat := Single.read?_foldCase token
  have hunsigned (ds : Text) : Numeral.unsigned 16 0xFFFFFFFF (foldCase ds) =
      Numeral.unsigned 16 0xFFFFFFFF ds := Numeral.unsigned_foldCase (by decide)
  cases token with
  | nil => rfl
  | cons c s =>
    by_cases hminus : c = '-'
    · subst hminus
      have hfold : foldCase ('-' :: s) = '-' :: foldCase s := rfl
      rw [hfold] at hpoint hint hfloat ⊢
      simp only [readImmediate, hexDigits?_foldCase, hpoint, hint, hfloat]
      cases hexDigits? s with
      | none => rfl
      | some ds => simp only [Option.map_some, hunsigned]
    · have hminus' : c.toLower ≠ '-' := mt (toLower_eq_iff (by decide)).1 hminus
      have hhex := hexDigits?_foldCase (c :: s)
      rw [foldCase_cons] at hpoint hint hfloat hhex ⊢
      simp only [readImmediate, List.cons.injEq, hminus, hminus', false_and, imp_self, implies_true,
        hhex, hpoint, hint, hfloat]
      cases hexDigits? (c :: s) with
      | none => rfl
      | some ds => simp only [Option.map_some, hunsigned]

/-- A token is read alike in every case. -/
theorem read_foldCase (token : Text) : read (foldCase token) = read token := by
  cases token with
  | nil => rfl
  | cons c rest =>
    have hregister : c.toLower = 'R' ∨ c.toLower = 'r' ↔ c = 'R' ∨ c = 'r' :=
      iff_toLower (P := fun c => c = 'R' ∨ c = 'r') (by decide) c
    have hsyscall : c.toLower = 'S' ∨ c.toLower = 's' ↔ c = 'S' ∨ c = 's' :=
      iff_toLower (P := fun c => c = 'S' ∨ c = 's') (by decide) c
    have himmediate := readImmediate_foldCase (c :: rest)
    rw [foldCase_cons] at himmediate ⊢
    simp only [read, hregister, hsyscall, index?_foldCase, himmediate]

end Operand

theorem Opcode.ofMnemonic?_foldCase (s : Text) : ofMnemonic? (foldCase s) = ofMnemonic? s := by
  simp only [ofMnemonic?, foldCase_foldCase]

end RegisterMachine
