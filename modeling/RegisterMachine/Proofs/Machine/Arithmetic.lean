import Mathlib.Data.Int.ModEq
import RegisterMachine.Proofs.Machine.Step

/-!
# Arithmetic in two's complement

`Computes` says in plain integers what an arithmetic instruction computes from its two operands. The
instruction puts the one word in its register that is congruent to that integer modulo `2 ^ 32`, and
fails only where there is no such integer, at a division by zero (`Machine.step_of_isArithmetic`).
-/

namespace RegisterMachine

/-- The two's complement pattern of an integer in 32 bits, as a number. -/
def Word.pattern (i : Int) : Nat :=
  (i % 2 ^ 32).toNat

/-- The integer that an instruction computes from `a` and `b`, before it is cut to a word. Division
goes toward zero. The bitwise operations work on the patterns of the operands. A shift takes its
amount modulo 32, and multiplies by a power of two or divides by one toward negative infinity. -/
inductive Computes (a b : Int) : Opcode → Int → Prop
  | add : Computes a b .add (a + b)
  | sub : Computes a b .sub (a - b)
  | mul : Computes a b .mul (a * b)
  | div (hb : b ≠ 0) : Computes a b .div (a.tdiv b)
  | and : Computes a b .and (Word.pattern a &&& Word.pattern b : Nat)
  | or : Computes a b .or (Word.pattern a ||| Word.pattern b : Nat)
  | xor : Computes a b .xor (Word.pattern a ^^^ Word.pattern b : Nat)
  | shl : Computes a b .shl (a * 2 ^ (b % 32).toNat)
  | shr : Computes a b .shr (a / 2 ^ (b % 32).toNat)

/-- An opcode that combines two words into a third. -/
def Opcode.IsArithmetic (op : Opcode) : Prop :=
  op ∈ [.add, .sub, .mul, .div, .and, .or, .xor, .shl, .shr]

variable {a b v : Int32} {z : Int}

/-- No two words are congruent. -/
theorem toInt_modEq_iff {w : Int32} : w.toInt ≡ v.toInt [ZMOD 2 ^ 32] ↔ w = v := by
  constructor
  · intro h
    have hw := w.le_toInt
    have hw' := w.toInt_lt
    have hv := v.le_toInt
    have hv' := v.toInt_lt
    unfold Int.ModEq at h
    apply Int32.toInt_inj.1
    omega
  · rintro rfl
    exact Int.ModEq.refl _

theorem modEq_of_toInt_eq_bmod (h : v.toInt = z.bmod (2 ^ 32)) : v.toInt ≡ z [ZMOD 2 ^ 32] := by
  rw [h]
  exact Int.bmod_emod

theorem toNat_toBitVec_eq_pattern (a : Int32) : a.toBitVec.toNat = Word.pattern a.toInt := by
  calc a.toBitVec.toNat = (BitVec.ofInt 32 a.toBitVec.toInt).toNat := by rw [BitVec.ofInt_toInt]
    _ = Word.pattern a.toInt := BitVec.toNat_ofInt _

theorem pattern_modEq (a : Int32) : (Word.pattern a.toInt : Int) ≡ a.toInt [ZMOD 2 ^ 32] := by
  have hnonneg : 0 ≤ a.toInt % 2 ^ 32 := by omega
  rw [Word.pattern, Int.toNat_of_nonneg hnonneg]
  exact Int.mod_modEq _ _

/-- A word has the pattern of its bits. -/
theorem modEq_of_toNat_toBitVec {n : Nat} (h : v.toBitVec.toNat = n) :
    v.toInt ≡ n [ZMOD 2 ^ 32] := by
  rw [← h, toNat_toBitVec_eq_pattern]
  exact (pattern_modEq v).symm

/-- The amount of a shift is never negative. -/
theorem toNat_smod_eq (b : Int32) : (b.toBitVec.smod 32).toNat = (b.toInt % 32).toNat := by
  have hint : (b.toBitVec.smod 32).toInt = b.toInt % 32 := by
    rw [BitVec.toInt_smod]
    exact Int.fmod_eq_emod_of_nonneg _ (by decide)
  have hmsb : (b.toBitVec.smod 32).msb = false := by
    rw [BitVec.msb_eq_toInt, hint]
    exact decide_eq_false (by omega)
  rw [← hint, BitVec.toInt_eq_toNat_of_msb hmsb, Int.toNat_natCast]

theorem toInt_shiftLeft_modEq (a b : Int32) :
    (a <<< b).toInt ≡ a.toInt * 2 ^ (b.toInt % 32).toNat [ZMOD 2 ^ 32] := by
  have hshift : (a <<< b).toInt =
      ((Word.pattern a.toInt <<< (b.toInt % 32).toNat : Nat) : Int).bmod (2 ^ 32) := by
    show (a <<< b).toBitVec.toInt = _
    rw [Int32.toBitVec_shiftLeft, BitVec.shiftLeft_eq', BitVec.toInt_shiftLeft, toNat_smod_eq,
      toNat_toBitVec_eq_pattern]
  refine (modEq_of_toInt_eq_bmod hshift).trans ?_
  rw [Nat.shiftLeft_eq]
  push_cast
  exact (pattern_modEq a).mul_right _

theorem toInt_shiftRight_eq (a b : Int32) :
    (a >>> b).toInt = a.toInt / 2 ^ (b.toInt % 32).toNat := by
  show (a >>> b).toBitVec.toInt = _
  rw [Int32.toBitVec_shiftRight, BitVec.toInt_sshiftRight', toNat_smod_eq,
    Int.shiftRight_eq_div_pow]
  push_cast
  rfl

/-- Except for a division by zero there is a result. -/
theorem exists_computes {op : Opcode} (hop : op.IsArithmetic) (hdiv : ¬ (op = .div ∧ b = 0)) :
    ∃ v z, compute op a b = .ok v ∧ Computes a.toInt b.toInt op z ∧ v.toInt ≡ z [ZMOD 2 ^ 32] := by
  cases op with
  | add => exact ⟨_, _, rfl, .add, modEq_of_toInt_eq_bmod (Int32.toInt_add a b)⟩
  | sub => exact ⟨_, _, rfl, .sub, modEq_of_toInt_eq_bmod (Int32.toInt_sub a b)⟩
  | mul => exact ⟨_, _, rfl, .mul, modEq_of_toInt_eq_bmod (Int32.toInt_mul a b)⟩
  | div =>
    have hb : b ≠ 0 := fun hb => hdiv ⟨rfl, hb⟩
    have hint : b.toInt ≠ 0 := fun h => hb (Int32.toInt_inj.1 h)
    exact ⟨_, _, if_neg hb, .div hint, modEq_of_toInt_eq_bmod (Int32.toInt_div a b)⟩
  | and =>
    refine ⟨_, _, rfl, .and, modEq_of_toNat_toBitVec ?_⟩
    rw [Int32.toBitVec_and, BitVec.toNat_and, toNat_toBitVec_eq_pattern, toNat_toBitVec_eq_pattern]
  | or =>
    refine ⟨_, _, rfl, .or, modEq_of_toNat_toBitVec ?_⟩
    rw [Int32.toBitVec_or, BitVec.toNat_or, toNat_toBitVec_eq_pattern, toNat_toBitVec_eq_pattern]
  | xor =>
    refine ⟨_, _, rfl, .xor, modEq_of_toNat_toBitVec ?_⟩
    rw [Int32.toBitVec_xor, BitVec.toNat_xor, toNat_toBitVec_eq_pattern, toNat_toBitVec_eq_pattern]
  | shl => exact ⟨_, _, rfl, .shl, toInt_shiftLeft_modEq a b⟩
  | shr =>
    refine ⟨_, _, rfl, .shr, ?_⟩
    rw [toInt_shiftRight_eq]
  | _ => simp [Opcode.IsArithmetic] at hop

namespace Machine

variable {r : Registry} {m : Machine} {op : Opcode} {n : UInt8} {src : Operand}

theorem perform_eq_combine {i : Instruction} (hop : i.opcode.IsArithmetic) :
    perform i = andNext (combine i) := by
  unfold perform
  cases h : i.opcode <;> simp_all [Opcode.IsArithmetic]

theorem combine_register (hn : n.toNat < registerCount) (hb : m.read src = .ok b) :
    combine ⟨op, [.register n, src]⟩ m =
      match compute op m.registers[n.toNat] b with
      | .ok v => (.ok (), { m with registers := m.registers.set n.toNat v })
      | .error fault => (.error fault, m) := by
  have hread : m.read (.register n) = .ok m.registers[n.toNat] := dif_pos hn
  have hwrite (v : Int32) : write (.register n) v m =
      (.ok (), { m with registers := m.registers.set n.toNat v }) := by
    rw [write, dif_pos hn]
    rfl
  have hdest : (⟨op, [.register n, src]⟩ : Instruction).operand 0 = .ok (.register n) := rfl
  have hsrc : (⟨op, [.register n, src]⟩ : Instruction).operand 1 = .ok src := rfl
  simp only [combine, Action.get_bind, hdest, hsrc, hread, hb, Action.lift_ok_bind]
  cases compute op m.registers[n.toNat] b with
  | ok v => exact hwrite v
  | error fault => rfl

/-- Arithmetic on a register fails exactly for a division by zero. Otherwise the register becomes
the one word that is congruent to what the instruction computes from the values before the step, and
besides it only the program counter changes. -/
theorem step_of_isArithmetic (hop : op.IsArithmetic) (hn : n.toNat < registerCount)
    (hi : m.program.instructions[m.pc]? = some ⟨op, [.register n, src]⟩)
    (hb : m.read src = .ok b) :
    let i : Instruction := ⟨op, [.register n, src]⟩
    let noted := m.note fun _ => .executing m.pc i
    if op = .div ∧ b = 0 then m.step r = (.error (m.located i .divisionByZero), noted)
    else ∃ v z, Computes m.registers[n.toNat].toInt b.toInt op z ∧
      (∀ w : Int32, w.toInt ≡ z [ZMOD 2 ^ 32] ↔ w = v) ∧
      m.step r = (.ok none,
        { noted with registers := m.registers.set n.toNat v, pc := m.pc + 1 }) := by
  intro i noted
  have hservice : i.opcode ≠ .syscall := by
    intro h
    simp [Opcode.IsArithmetic, show op = .syscall from h] at hop
  have hcombine : combine i noted = _ := combine_register hn hb
  split
  · rename_i hdiv
    obtain ⟨rfl, rfl⟩ := hdiv
    have hperform : perform i noted = (.error .divisionByZero, noted) := by
      rw [perform_eq_combine hop]
      exact Action.bind_of_error hcombine _
    exact step_of_perform_eq_error hi hservice hperform
  · rename_i hdiv
    obtain ⟨v, z, hv, hz, hmod⟩ := exists_computes (a := m.registers[n.toNat]) hop hdiv
    have hperform : perform i noted =
        (.ok .next, { noted with registers := m.registers.set n.toNat v }) := by
      rw [perform_eq_combine hop]
      rw [show noted.registers = m.registers from rfl, hv] at hcombine
      exact Action.bind_of_ok hcombine _
    refine ⟨v, z, hz, fun w => ?_, step_of_perform_eq_next hi hservice hperform⟩
    rw [← toInt_modEq_iff]
    exact ⟨fun h => h.trans hmod.symm, fun h => h.trans hmod⟩

/-- The only quotient that is no word is cut to the least word. The divisor is a float here, which is
read as the integer with its pattern. -/
theorem step_of_isArithmetic_div_least :
    let i : Instruction := ⟨.div, [.register 3, .float 0xFFFFFFFF]⟩
    let m : Machine :=
      { start {} { instructions := #[i] } {} with registers := .replicate _ Int32.minValue }
    i.opcode.IsArithmetic ∧ m.read (.float 0xFFFFFFFF) = .ok (-1) ∧
      m.step .standard =
        (.ok none, { m with registers := m.registers.set 3 Int32.minValue, pc := 1 }) := by
  intro i m
  have hop : i.opcode.IsArithmetic := by simp [i, Opcode.IsArithmetic]
  have hb : m.read (.float 0xFFFFFFFF) = .ok (-1) := by decide
  have h := step_of_isArithmetic (r := .standard) (m := m) (n := 3) hop (by decide) rfl hb
  have hdiv : ¬ (Opcode.div = .div ∧ (-1 : Int32) = 0) := by decide
  dsimp only at h
  rw [if_neg hdiv] at h
  obtain ⟨v, z, hz, hv, hstep⟩ := h
  cases hz with
  | div =>
    obtain rfl : Int32.minValue = v := (hv _).1 (by decide)
    exact ⟨hop, hb, hstep⟩

end Machine

end RegisterMachine
