import RegisterMachine.Program.Operand
import RegisterMachine.Proofs.Numeric.Integer

/-!
# Which tokens are operands

`Operand.Spells` is the grammar of the operands that hold no point: registers by their number, bit
patterns in hexadecimal and integers in decimal. The digits of a register are checked one by one;
those of a bit pattern are left to a reader of unsigned numerals, which takes a plus sign in front
of them. Every token of the grammar is read as the operand it stands for (`read_of_spells`), and
beside them only bit patterns with such a plus sign are read (`spells_of_read`).
-/

namespace RegisterMachine.Operand

/-- A token without a point, and the operand that it stands for. -/
inductive Spells : Text → Operand → Prop
  | register {mark : Char} {ds : Text} {n : UInt8} (hmark : mark ∈ ['R', 'r'])
      (hds : Numeral.Spells 10 ds n.toNat) (hn : n.toNat < registerCount) :
      Spells (mark :: ds) (.register n)
  | syscallRegister {mark : Char} {ds : Text} {n : UInt8} (hmark : mark ∈ ['S', 's'])
      (hds : Numeral.Spells 10 ds n.toNat) (hn : n.toNat < syscallRegisterCount) :
      Spells (mark :: ds) (.syscallRegister n)
  /-- Hexadecimal digits stand for the word with these bits. -/
  | bits {mark : Char} {ds : Text} {value : Int32} (hmark : mark ∈ ['x', 'X'])
      (hds : Numeral.Spells 16 ds value.toUInt32.toNat) :
      Spells ('0' :: mark :: ds) (.immediate value)
  | negatedBits {mark : Char} {ds : Text} {value : Int32} (hmark : mark ∈ ['x', 'X'])
      (hds : Numeral.Spells 16 ds value.toUInt32.toNat) :
      Spells ('-' :: '0' :: mark :: ds) (.immediate (-value))
  | integer {ds : Text} {value : Int32} {n : Nat} (hds : Numeral.Spells 10 ds n)
      (hvalue : value.toInt = n) : Spells ds (.immediate value)
  | positive {ds : Text} {value : Int32} {n : Nat} (hds : Numeral.Spells 10 ds n)
      (hvalue : value.toInt = n) : Spells ('+' :: ds) (.immediate value)
  | negative {ds : Text} {value : Int32} {n : Nat} (hds : Numeral.Spells 10 ds n)
      (hvalue : value.toInt = -n) : Spells ('-' :: ds) (.immediate value)

/-- A bit pattern with a plus sign behind its mark, which the grammar does not have. -/
inductive SpellsPlus : Text → Operand → Prop
  | bits {mark : Char} {ds : Text} {value : Int32} (hmark : mark ∈ ['x', 'X'])
      (hds : Numeral.Spells 16 ds value.toUInt32.toNat) :
      SpellsPlus ('0' :: mark :: '+' :: ds) (.immediate value)
  | negatedBits {mark : Char} {ds : Text} {value : Int32} (hmark : mark ∈ ['x', 'X'])
      (hds : Numeral.Spells 16 ds value.toUInt32.toNat) :
      SpellsPlus ('-' :: '0' :: mark :: '+' :: ds) (.immediate (-value))

variable {token ds : Text} {mark : Char} {o : Operand}

theorem index?_eq_some_iff {count : Nat} {n : UInt8} (hcount : count ≤ 256) :
    index? count ds = some n ↔ Numeral.Spells 10 ds n.toNat ∧ n.toNat < count := by
  rw [Numeral.spells_ten_iff]
  unfold index?
  split
  · rename_i h
    obtain ⟨hne, hall, hlt⟩ := h
    rw [Option.some.injEq]
    constructor
    · rintro rfl
      have hvalue := UInt8.toNat_ofNat_of_lt' (Nat.lt_of_lt_of_le hlt hcount)
      rw [hvalue]
      exact ⟨⟨hne, hall, rfl⟩, hlt⟩
    · rintro ⟨⟨-, -, hn⟩, -⟩
      rw [← hn, UInt8.ofNat_toNat]
  · rename_i h
    simp only [reduceCtorEq, false_iff]
    rintro ⟨⟨hne, hall, hn⟩, hlt⟩
    exact h ⟨hne, hall, hn ▸ hlt⟩

theorem read_register_iff (hmark : mark ∈ ['R', 'r']) :
    read (mark :: ds) = .ok o ↔
      ∃ n : UInt8, (Numeral.Spells 10 ds n.toNat ∧ n.toNat < registerCount) ∧ o = .register n := by
  have hmark : mark = 'R' ∨ mark = 'r' := by simpa using hmark
  simp only [← index?_eq_some_iff (show registerCount ≤ 256 by decide), read, hmark, if_true]
  cases index? registerCount ds <;> simp [eq_comm]

/-- Only a token with the mark of a register is read as one. -/
theorem exists_mark_of_read_register {n : UInt8} (h : read token = .ok (.register n)) :
    ∃ mark ∈ ['R', 'r'], ∃ ds, token = mark :: ds ∧ Numeral.Spells 10 ds n.toNat := by
  unfold read at h
  split at h
  · cases h
  · rename_i c rest
    split at h
    · rename_i hc
      have hmark : c ∈ ['R', 'r'] := by simpa using hc
      split at h
      · rename_i m hindex
        cases h
        exact ⟨c, hmark, rest, rfl, ((index?_eq_some_iff (by decide)).1 hindex).1⟩
      · cases h
    · split at h
      · split at h <;> cases h
      · -- an immediate is no register
        simp only [readImmediate] at h
        split at h
        · split at h <;> cases h
        · split at h
          · split at h <;> cases h
          · split at h <;> cases h

theorem isAlphanum_of_read_register {n : UInt8} (h : read token = .ok (.register n)) :
    ∀ c ∈ token, c.isAlphanum := by
  obtain ⟨mark, hmark, ds, rfl, hds⟩ := exists_mark_of_read_register h
  obtain ⟨-, hdigits, -⟩ := Numeral.spells_ten_iff.1 hds
  refine List.forall_mem_cons.2 ⟨?_, fun c hc => ?_⟩
  · have hmark : mark = 'R' ∨ mark = 'r' := by simpa using hmark
    rcases hmark with rfl | rfl <;> rfl
  · simp [Char.isAlphanum, List.all_eq_true.1 hdigits c hc]

theorem read_syscallRegister_iff (hmark : mark ∈ ['S', 's']) :
    read (mark :: ds) = .ok o ↔
      ∃ n : UInt8, (Numeral.Spells 10 ds n.toNat ∧ n.toNat < syscallRegisterCount) ∧
        o = .syscallRegister n := by
  have hno : ¬(mark = 'R' ∨ mark = 'r') := by
    rintro (rfl | rfl) <;> exact absurd hmark (by decide)
  have hmark : mark = 'S' ∨ mark = 's' := by simpa using hmark
  simp only [← index?_eq_some_iff (show syscallRegisterCount ≤ 256 by decide), read, hno, hmark,
    if_true, if_false]
  cases index? syscallRegisterCount ds <;> simp [eq_comm]

/-- The word that hexadecimal digits stand for; a plus sign may stand in front of them. -/
theorem unsigned_sixteen_eq_ok_iff {value : Int32} :
    (∃ n, Numeral.unsigned 16 0xFFFFFFFF ds = .ok n ∧ Int32.ofNat n = value) ↔
      Numeral.Spells 16 ds value.toUInt32.toNat ∨
        ∃ ds', ds = '+' :: ds' ∧ Numeral.Spells 16 ds' value.toUInt32.toNat := by
  simp only [Numeral.unsigned_eq_ok_iff (show 0 < 16 by decide) (show 16 ≤ 16 by decide)]
  constructor
  · rintro ⟨n, ⟨hle, hn⟩, rfl⟩
    have hlt : n < UInt32.size := Nat.lt_succ_of_le hle
    rwa [Int32.toUInt32_ofNat', UInt32.toNat_ofNat_of_lt' hlt]
  · intro h
    have hlt := value.toUInt32.toNat_lt
    refine ⟨value.toUInt32.toNat, ⟨by omega, h⟩, ?_⟩
    rw [← UInt32.toInt32_ofNat', UInt32.ofNat_toNat, Int32.toInt32_toUInt32]

theorem exists_mark_of_hexDigits? (h : hexDigits? token = some ds) :
    ∃ mark ∈ ['x', 'X'], token = '0' :: mark :: ds := by
  unfold hexDigits? at h
  split at h
  · cases h
    exact ⟨'x', by decide, rfl⟩
  · cases h
    exact ⟨'X', by decide, rfl⟩
  · cases h

theorem read_bits_iff (hmark : mark ∈ ['x', 'X']) :
    read ('0' :: mark :: ds) = .ok o ↔
      ∃ value : Int32, (Numeral.Spells 16 ds value.toUInt32.toNat ∨
        ∃ ds', ds = '+' :: ds' ∧ Numeral.Spells 16 ds' value.toUInt32.toNat) ∧
          o = .immediate value := by
  have hmark : mark = 'x' ∨ mark = 'X' := by simpa using hmark
  simp only [← unsigned_sixteen_eq_ok_iff]
  cases hds : Numeral.unsigned 16 0xFFFFFFFF ds with
  | error e => rcases hmark with rfl | rfl <;> simp [read, readImmediate, hexDigits?, hds]
  | ok n => rcases hmark with rfl | rfl <;> simp [read, readImmediate, hexDigits?, hds, eq_comm]

theorem read_negatedBits_iff (hmark : mark ∈ ['x', 'X']) :
    read ('-' :: '0' :: mark :: ds) = .ok o ↔
      ∃ value : Int32, (Numeral.Spells 16 ds value.toUInt32.toNat ∨
        ∃ ds', ds = '+' :: ds' ∧ Numeral.Spells 16 ds' value.toUInt32.toNat) ∧
          o = .immediate (-value) := by
  have hmark : mark = 'x' ∨ mark = 'X' := by simpa using hmark
  simp only [← unsigned_sixteen_eq_ok_iff]
  cases hds : Numeral.unsigned 16 0xFFFFFFFF ds with
  | error e => rcases hmark with rfl | rfl <;> simp [read, readImmediate, hexDigits?, hds]
  | ok n => rcases hmark with rfl | rfl <;> simp [read, readImmediate, hexDigits?, hds, eq_comm]

/-- No mark stands in front of the token. -/
structure IsPlain (token : Text) : Prop where
  head : ∀ c ∈ token.head?, c ∉ ['R', 'r', 'S', 's']
  hex : hexDigits? token = none
  negated : ∀ s, token = '-' :: s → hexDigits? s = none

theorem read_plain_iff (h : IsPlain token) (hpoint : '.' ∉ token) :
    read token = .ok o ↔ ∃ value, Numeral.int32 token = .ok value ∧ o = .immediate value := by
  have himmediate : readImmediate token = .ok o ↔
      ∃ value, Numeral.int32 token = .ok value ∧ o = .immediate value := by
    unfold readImmediate
    split
    rename_i negative body hbody
    have hhex : hexDigits? body = none := by
      split at hbody
      · cases hbody
        exact h.negated _ rfl
      · cases hbody
        exact h.hex
    simp only [hhex, hpoint, if_false]
    cases Numeral.int32 token <;> simp [eq_comm]
  cases token with
  | nil => simp [read, Numeral.int32]
  | cons c rest =>
    have hhead := h.head c rfl
    simp only [List.mem_cons, List.not_mem_nil, or_false, not_or] at hhead
    rw [read, if_neg (by simp [hhead]), if_neg (by simp [hhead])]
    exact himmediate

theorem hexDigits?_eq_none_of_spells {n : Nat} (h : Numeral.Spells 10 ds n) :
    hexDigits? ds = none := by
  cases hhex : hexDigits? ds with
  | none => rfl
  | some rest =>
    obtain ⟨mark, hmark, rfl⟩ := exists_mark_of_hexDigits? hhex
    have hmem : mark ∈ "0123456789abcdefABCDEF".toList := h.mem (by simp)
    have hmark : mark = 'x' ∨ mark = 'X' := by simpa using hmark
    rcases hmark with rfl | rfl <;> exact absurd hmem (by decide)

theorem isPlain_of_spells {n : Nat} (h : Numeral.Spells 10 ds n) : IsPlain ds where
  head c hc hmark := by
    have hmem : c ∈ "0123456789abcdefABCDEF".toList := h.mem (List.mem_of_mem_head? hc)
    have hmark : c = 'R' ∨ c = 'r' ∨ c = 'S' ∨ c = 's' := by simpa using hmark
    rcases hmark with rfl | rfl | rfl | rfl <;> exact absurd hmem (by decide)
  hex := hexDigits?_eq_none_of_spells h
  negated s hs := by
    subst hs
    exact absurd h Numeral.not_spells_minus

theorem isPlain_plus : IsPlain ('+' :: ds) where
  head c hc := by
    cases hc
    decide
  hex := rfl
  negated s hs := by simp at hs

theorem isPlain_minus (h : hexDigits? ds = none) : IsPlain ('-' :: ds) where
  head c hc := by
    cases hc
    decide
  hex := rfl
  negated s hs := by
    cases hs
    exact h

theorem read_of_spells (h : Spells token o) (hpoint : '.' ∉ token) : read token = .ok o := by
  cases h with
  | register hmark hds hn => exact (read_register_iff hmark).2 ⟨_, ⟨hds, hn⟩, rfl⟩
  | syscallRegister hmark hds hn => exact (read_syscallRegister_iff hmark).2 ⟨_, ⟨hds, hn⟩, rfl⟩
  | bits hmark hds => exact (read_bits_iff hmark).2 ⟨_, .inl hds, rfl⟩
  | negatedBits hmark hds => exact (read_negatedBits_iff hmark).2 ⟨_, .inl hds, rfl⟩
  | integer hds hvalue =>
    have hint := Numeral.int32_eq_ok_iff.2 (.inl ⟨_, .inl hds, hvalue⟩)
    exact (read_plain_iff (isPlain_of_spells hds) hpoint).2 ⟨_, hint, rfl⟩
  | positive hds hvalue =>
    have hint := Numeral.int32_eq_ok_iff.2 (.inl ⟨_, .inr ⟨_, rfl, hds⟩, hvalue⟩)
    exact (read_plain_iff isPlain_plus hpoint).2 ⟨_, hint, rfl⟩
  | negative hds hvalue =>
    have hint := Numeral.int32_eq_ok_iff.2 (.inr ⟨_, _, rfl, hds, hvalue⟩)
    have hplain := isPlain_minus (hexDigits?_eq_none_of_spells hds)
    exact (read_plain_iff hplain hpoint).2 ⟨_, hint, rfl⟩

theorem read_of_spellsPlus (h : SpellsPlus token o) : read token = .ok o := by
  cases h with
  | bits hmark hds => exact (read_bits_iff hmark).2 ⟨_, .inr ⟨_, rfl, hds⟩, rfl⟩
  | negatedBits hmark hds => exact (read_negatedBits_iff hmark).2 ⟨_, .inr ⟨_, rfl, hds⟩, rfl⟩

/-- A token has a mark in front or none. -/
theorem exists_mark_or_isPlain (token : Text) :
    (∃ mark ∈ ['R', 'r'], ∃ ds, token = mark :: ds) ∨
    (∃ mark ∈ ['S', 's'], ∃ ds, token = mark :: ds) ∨
    (∃ mark ∈ ['x', 'X'], ∃ ds, token = '0' :: mark :: ds) ∨
    (∃ mark ∈ ['x', 'X'], ∃ ds, token = '-' :: '0' :: mark :: ds) ∨ IsPlain token := by
  by_cases hhead : ∃ c ∈ token.head?, c ∈ ['R', 'r', 'S', 's']
  · obtain ⟨c, hc, hmark⟩ := hhead
    obtain ⟨ds, rfl⟩ := List.head?_eq_some_iff.1 hc
    rcases List.mem_append.1 (show c ∈ ['R', 'r'] ++ ['S', 's'] from hmark) with h | h
    · exact .inl ⟨c, h, ds, rfl⟩
    · exact .inr (.inl ⟨c, h, ds, rfl⟩)
  push Not at hhead
  cases hhex : hexDigits? token with
  | some ds =>
    obtain ⟨mark, hmark, rfl⟩ := exists_mark_of_hexDigits? hhex
    exact .inr (.inr (.inl ⟨mark, hmark, ds, rfl⟩))
  | none =>
    by_cases hnegated : ∀ s, token = '-' :: s → hexDigits? s = none
    · exact .inr (.inr (.inr (.inr ⟨hhead, hhex, hnegated⟩)))
    push Not at hnegated
    obtain ⟨s, rfl, hs⟩ := hnegated
    obtain ⟨ds, hds⟩ := Option.ne_none_iff_exists'.1 hs
    obtain ⟨mark, hmark, rfl⟩ := exists_mark_of_hexDigits? hds
    exact .inr (.inr (.inr (.inl ⟨mark, hmark, ds, rfl⟩)))

theorem spells_of_read (h : read token = .ok o) (hpoint : '.' ∉ token) :
    Spells token o ∨ SpellsPlus token o := by
  rcases exists_mark_or_isPlain token with ⟨mark, hmark, ds, rfl⟩ | ⟨mark, hmark, ds, rfl⟩ |
    ⟨mark, hmark, ds, rfl⟩ | ⟨mark, hmark, ds, rfl⟩ | hplain
  · obtain ⟨n, ⟨hds, hn⟩, rfl⟩ := (read_register_iff hmark).1 h
    exact .inl (.register hmark hds hn)
  · obtain ⟨n, ⟨hds, hn⟩, rfl⟩ := (read_syscallRegister_iff hmark).1 h
    exact .inl (.syscallRegister hmark hds hn)
  · obtain ⟨value, hds | ⟨ds', rfl, hds⟩, rfl⟩ := (read_bits_iff hmark).1 h
    · exact .inl (.bits hmark hds)
    · exact .inr (.bits hmark hds)
  · obtain ⟨value, hds | ⟨ds', rfl, hds⟩, rfl⟩ := (read_negatedBits_iff hmark).1 h
    · exact .inl (.negatedBits hmark hds)
    · exact .inr (.negatedBits hmark hds)
  · obtain ⟨value, hint, rfl⟩ := (read_plain_iff hplain hpoint).1 h
    left
    rcases Numeral.int32_eq_ok_iff.1 hint with ⟨n, hds | ⟨ds, rfl, hds⟩, hvalue⟩ |
      ⟨ds, n, rfl, hds, hvalue⟩
    · exact .integer hds hvalue
    · exact .positive hds hvalue
    · exact .negative hds hvalue

/-- The tokens without a point that are read, and what each of them is read as. -/
theorem read_eq_ok_iff_spells (hpoint : '.' ∉ token) :
    read token = .ok o ↔ Spells token o ∨ SpellsPlus token o := by
  constructor
  · intro h
    exact spells_of_read h hpoint
  · rintro (h | h)
    · exact read_of_spells h hpoint
    · exact read_of_spellsPlus h

/-- The pattern of thirty-one, negated. -/
theorem read_eq_ok_iff_spells_negated_bits :
    let token := "-0x1f".toList
    '.' ∉ token ∧ read token = .ok (.immediate (-31)) ∧
      (Spells token (.immediate (-31)) ∨ SpellsPlus token (.immediate (-31))) := by
  intro token
  have hpoint : '.' ∉ token := by decide
  have hread : read token = .ok (.immediate (-31)) := by decide
  exact ⟨hpoint, hread, (read_eq_ok_iff_spells hpoint).1 hread⟩

/-- A plus sign behind the mark is no part of the grammar, and is read. -/
theorem read_plus_behind_mark :
    read "0x+1F".toList = .ok (.immediate 31) ∧ ¬ ∃ o, Spells "0x+1F".toList o := by
  refine ⟨by decide, ?_⟩
  rintro ⟨o, h⟩
  generalize htoken : "0x+1F".toList = token at h
  cases h with
  | register hmark =>
    cases htoken
    exact absurd hmark (by decide)
  | syscallRegister hmark =>
    cases htoken
    exact absurd hmark (by decide)
  | bits _ hds =>
    cases htoken
    exact Numeral.not_spells_plus hds
  | negatedBits => cases htoken
  | integer hds =>
    subst htoken
    exact absurd (hds.mem (show '+' ∈ "0x+1F".toList by decide)) (by decide)
  | positive => cases htoken
  | negative => cases htoken

end RegisterMachine.Operand
