import Mathlib.Algebra.Group.Nat.Defs
import RegisterMachine.Proofs.Machine.Buffer
import RegisterMachine.Proofs.Service.Calls
import RegisterMachine.Proofs.Text.Utf8

/-!
# Services on ranges of memory

Service 13 moves bytes within memory: the target gets the bytes that the source had before, however
the two ranges overlap (`Machine.movesBytes`). Service 14 stores a string literal with a zero byte
behind it, and service 2 prints it again from there (`Machine.printsBack`). Both check their ranges
before the first byte changes.
-/

namespace RegisterMachine

variable {m m' : Machine} {text : Text}

namespace Service

theorem copyMemory_of_holdsRange (hsrc : m.HoldsRange (m.arg 1) (m.arg 3))
    (hdst : m.HoldsRange (m.arg 2) (m.arg 3)) :
    copyMemory m = (.ok .proceed,
      { m with
        memory := m.memory.copy (m.arg 1).toInt.toNat (m.arg 2).toInt.toNat
          (m.arg 3).toInt.toNat }) := by
  rw [copyMemory, withRange_of_holdsRange hsrc, withRange_of_holdsRange hdst]

theorem copyMemory_of_source (hsrc : ¬ m.HoldsRange (m.arg 1) (m.arg 3)) :
    copyMemory m = (.error (.memory (m.arg 1) (m.arg 3)), m) := by
  rw [copyMemory, withRange_of_not_holdsRange hsrc]

theorem copyMemory_of_target (hsrc : m.HoldsRange (m.arg 1) (m.arg 3))
    (hdst : ¬ m.HoldsRange (m.arg 2) (m.arg 3)) :
    copyMemory m = (.error (.memory (m.arg 2) (m.arg 3)), m) := by
  rw [copyMemory, withRange_of_holdsRange hsrc, withRange_of_not_holdsRange hdst]

end Service

theorem Registry.find?_copyMemory :
    standard.find? 13 = some ⟨"core", 13, "mem_copy", Service.copyMemory⟩ := rfl

namespace Machine

/-- Service 13 moves `S3` bytes from the address `S1` to the address `S2`. -/
structure MovesBytes (m : Machine) : Prop where
  succeeds_iff : (∃ m', Registry.standard.call 13 m = (.ok .proceed, m')) ↔
    m.HoldsRange (m.arg 1) (m.arg 3) ∧ m.HoldsRange (m.arg 2) (m.arg 3)
  copied : ∀ m' (k : Nat), Registry.standard.call 13 m = (.ok .proceed, m') →
    k < (m.arg 3).toInt →
      m'.memory.get ((m.arg 2).toInt.toNat + k) = m.memory.get ((m.arg 1).toInt.toNat + k)
  untouched : ∀ m' (i : Nat), Registry.standard.call 13 m = (.ok .proceed, m') →
    i < (m.arg 2).toInt ∨ (m.arg 2).toInt + (m.arg 3).toInt ≤ i →
      m'.memory.get i = m.memory.get i
  /-- Nothing but memory changes, and its size does not. -/
  frame : ∀ m', Registry.standard.call 13 m = (.ok .proceed, m') →
    m' = { m.note (fun _ => .calling 13 "core" "mem_copy") with memory := m'.memory } ∧
      m'.memory.size = m.memory.size
  /-- The source is checked first, and a call that is refused has changed nothing. -/
  refused_source : ¬ m.HoldsRange (m.arg 1) (m.arg 3) →
    Registry.standard.call 13 m = (.error (.syscall 13 "mem_copy" (.memory (m.arg 1) (m.arg 3))),
      m.note fun _ => .calling 13 "core" "mem_copy")
  refused_target : m.HoldsRange (m.arg 1) (m.arg 3) → ¬ m.HoldsRange (m.arg 2) (m.arg 3) →
    Registry.standard.call 13 m = (.error (.syscall 13 "mem_copy" (.memory (m.arg 2) (m.arg 3))),
      m.note fun _ => .calling 13 "core" "mem_copy")

theorem call_copyMemory_of_source (hsrc : ¬ m.HoldsRange (m.arg 1) (m.arg 3)) :
    Registry.standard.call 13 m = (.error (.syscall 13 "mem_copy" (.memory (m.arg 1) (m.arg 3))),
      m.note fun _ => .calling 13 "core" "mem_copy") :=
  Registry.call_eq_error Registry.find?_copyMemory (Service.copyMemory_of_source hsrc)

theorem call_copyMemory_of_target (hsrc : m.HoldsRange (m.arg 1) (m.arg 3))
    (hdst : ¬ m.HoldsRange (m.arg 2) (m.arg 3)) :
    Registry.standard.call 13 m = (.error (.syscall 13 "mem_copy" (.memory (m.arg 2) (m.arg 3))),
      m.note fun _ => .calling 13 "core" "mem_copy") :=
  Registry.call_eq_error Registry.find?_copyMemory (Service.copyMemory_of_target hsrc hdst)

theorem call_copyMemory_eq_ok_iff :
    Registry.standard.call 13 m = (.ok .proceed, m') ↔
      (m.HoldsRange (m.arg 1) (m.arg 3) ∧ m.HoldsRange (m.arg 2) (m.arg 3)) ∧
        m' = { m.note (fun _ => .calling 13 "core" "mem_copy") with
          memory := m.memory.copy (m.arg 1).toInt.toNat (m.arg 2).toInt.toNat
            (m.arg 3).toInt.toNat } := by
  by_cases hsrc : m.HoldsRange (m.arg 1) (m.arg 3)
  · by_cases hdst : m.HoldsRange (m.arg 2) (m.arg 3)
    · rw [Registry.call_eq_ok Registry.find?_copyMemory
        (Service.copyMemory_of_holdsRange hsrc hdst)]
      simp only [hsrc, hdst, and_self, true_and, Prod.mk.injEq]
      exact eq_comm
    · simp [call_copyMemory_of_target hsrc hdst, hdst]
  · simp [call_copyMemory_of_source hsrc, hsrc]

/-- Bytes are moved in every memory, whatever the registers hold. -/
theorem movesBytes (m : Machine) : m.MovesBytes := by
  have hget {m' : Machine} (h : Registry.standard.call 13 m = (.ok .proceed, m')) (i : Nat) :
      m'.memory.get i =
        if (m.arg 2).toInt.toNat ≤ i ∧ i < (m.arg 2).toInt.toNat + (m.arg 3).toInt.toNat then
          m.memory.get (i - (m.arg 2).toInt.toNat + (m.arg 1).toInt.toNat)
        else m.memory.get i := by
    obtain ⟨⟨-, hnonneg, hlen, hend⟩, rfl⟩ := call_copyMemory_eq_ok_iff.1 h
    exact Buffer.get_copy (by omega) i
  constructor
  case succeeds_iff =>
    simp only [call_copyMemory_eq_ok_iff, exists_and_left, exists_eq, and_true]
  case copied =>
    intro m' k h hk
    rw [hget h, if_pos (by omega), Nat.add_sub_cancel_left, Nat.add_comm]
  case untouched =>
    intro m' i h hi
    obtain ⟨⟨-, hnonneg, hlen, -⟩, -⟩ := call_copyMemory_eq_ok_iff.1 h
    rw [hget h, if_neg (by omega)]
  case frame =>
    intro m' h
    obtain ⟨-, rfl⟩ := call_copyMemory_eq_ok_iff.1 h
    exact ⟨rfl, Buffer.size_copy _ _ _ _⟩
  case refused_source => exact call_copyMemory_of_source
  case refused_target => exact call_copyMemory_of_target

end Machine

namespace Machine

/-- The text and a zero byte behind it have room in memory from the address on. The length of a
range is a word as its address is. -/
def HoldsText (m : Machine) (address : Int32) (text : Text) : Prop :=
  ∃ len : Int32, len.toInt = (Utf8.encode text).length + 1 ∧ m.HoldsRange address len

theorem holdsText_iff {address : Int32} :
    m.HoldsText address text ↔ (Utf8.encode text).length + 1 < 2 ^ 31 ∧
      m.HoldsRange address (Int32.ofNat ((Utf8.encode text).length + 1)) := by
  constructor
  · rintro ⟨len, hlen, h⟩
    have hlt : (Utf8.encode text).length + 1 < 2 ^ 31 := by
      have := len.toInt_lt
      omega
    have heq : len = Int32.ofNat ((Utf8.encode text).length + 1) := by
      apply Int32.toInt_inj.1
      rw [hlen, Int32.toInt_ofNat_of_lt hlt]
      rfl
    exact ⟨hlt, heq ▸ h⟩
  · rintro ⟨hlt, h⟩
    exact ⟨_, Int32.toInt_ofNat_of_lt hlt, h⟩

theorem holdsText_iff_of_length_lt {address : Int32}
    (hlt : (Utf8.encode text).length + 1 < 2 ^ 31) :
    m.HoldsText address text ↔ 0 ≤ address.toInt ∧
      address.toInt + (Utf8.encode text).length + 1 ≤ m.memory.size := by
  rw [holdsText_iff, HoldsRange, Int32.toInt_ofNat_of_lt hlt]
  omega

end Machine

namespace Service

theorem storeLiteral_of_holdsText (hliteral : m.program.literal? (m.arg 1) = some text)
    (h : m.HoldsText (m.arg 2) text) :
    storeLiteral m = (.ok .proceed,
      { m with
        memory := m.memory.write (m.arg 2).toInt.toNat (Utf8.encode text ++ [0]) }.setArg 0
          (Int32.ofNat (Utf8.encode text).length)) := by
  obtain ⟨hlt, hrange⟩ := Machine.holdsText_iff.1 h
  rw [storeLiteral, withLiteral_of_literal? hliteral]
  dsimp only
  rw [if_neg (by omega), withRange_of_holdsRange hrange]

theorem storeLiteral_of_not_holdsText (hliteral : m.program.literal? (m.arg 1) = some text)
    (h : ¬ m.HoldsText (m.arg 2) text) :
    ∃ len, storeLiteral m = (.error (.memory (m.arg 2) len), m) := by
  rw [storeLiteral, withLiteral_of_literal? hliteral]
  dsimp only
  split
  · exact ⟨_, rfl⟩
  · rename_i hlt
    have hrange := fun hrange => h (Machine.holdsText_iff.2 ⟨by omega, hrange⟩)
    exact ⟨_, withRange_of_not_holdsRange hrange _⟩

theorem printBytes_of_holds (hnonneg : 0 ≤ (m.arg 1).toInt)
    (hsize : (m.arg 1).toInt ≤ m.memory.size)
    (hbytes : m.memory.Holds (m.arg 1).toInt.toNat (Utf8.encode text ++ [0]))
    (hnul : '\x00' ∉ text) (hsink : m.console.sink ≠ .full) :
    printBytes m =
      (.ok .proceed, { m with console.printed := m.console.printed.push text }) := by
  have hrange : m.HoldsRange (m.arg 1) 0 := ⟨hnonneg, by decide, by simpa using hsize⟩
  have hzero : (0 : UInt8) ∉ Utf8.encode text :=
    mt (Utf8.ofNat_mem_encode_iff (c := '\x00') (by decide)).1 hnul
  rw [printBytes, withRange_of_holdsRange hrange, Buffer.untilZero_eq_of_holds hbytes hzero,
    Utf8.decodeLossy_encode, println_of_sink hsink]

end Service

theorem Registry.find?_storeLiteral :
    standard.find? 14 = some ⟨"core", 14, "store_literal", Service.storeLiteral⟩ := rfl

theorem Registry.find?_printBytes :
    standard.find? 2 = some ⟨"core", 2, "print_cstr", Service.printBytes⟩ := rfl

namespace Machine

/-- `m'` is the machine `m` after service 14 has stored the text at the address `S2`. -/
structure StoresText (m : Machine) (text : Text) (m' : Machine) : Prop where
  length : (m'.arg 0).toInt = (Utf8.encode text).length
  stored : m'.memory.Holds (m.arg 2).toInt.toNat (Utf8.encode text ++ [0])
  untouched : ∀ i : Nat,
    i < (m.arg 2).toInt ∨ (m.arg 2).toInt + (Utf8.encode text).length + 1 ≤ i →
      m'.memory.get i = m.memory.get i
  size_memory : m'.memory.size = m.memory.size
  frame : m' = { m.note (fun _ => .calling 14 "core" "store_literal") with
    memory := m'.memory
    syscallRegisters := m.syscallRegisters.set 0 (m'.arg 0) }

/-- Service 14 stores the text of the literal `S1` at the address `S2` if there is room for it, and
service 2 prints it from there, also later and whatever the rest of memory holds by then. -/
structure PrintsBack (m : Machine) (text : Text) : Prop where
  succeeds_iff : (∃ m', Registry.standard.call 14 m = (.ok .proceed, m')) ↔
    m.HoldsText (m.arg 2) text
  /-- There is room for a text of any length that a word can say if it does not go past the end. -/
  room_iff : (Utf8.encode text).length + 1 < 2 ^ 31 →
    (m.HoldsText (m.arg 2) text ↔ 0 ≤ (m.arg 2).toInt ∧
      (m.arg 2).toInt + (Utf8.encode text).length + 1 ≤ m.memory.size)
  refused : ¬ m.HoldsText (m.arg 2) text → ∃ len, Registry.standard.call 14 m =
    (.error (.syscall 14 "store_literal" (.memory (m.arg 2) len)),
      m.note fun _ => .calling 14 "core" "store_literal")
  stored : ∀ m', Registry.standard.call 14 m = (.ok .proceed, m') → m.StoresText text m'
  printed : ∀ m' after : Machine, Registry.standard.call 14 m = (.ok .proceed, m') →
    after.memory.size = m'.memory.size →
    (∀ k ≤ (Utf8.encode text).length, after.memory.get ((m.arg 2).toInt.toNat + k) =
      m'.memory.get ((m.arg 2).toInt.toNat + k)) →
    after.arg 1 = m.arg 2 → after.console.sink ≠ .full →
      ∃ console, Registry.standard.call 2 after = (.ok .proceed, { after with console }) ∧
        console.output = after.console.output ++ text ++ ['\n'] ∧
        console.input = after.console.input

theorem call_storeLiteral_eq_ok_iff (hliteral : m.program.literal? (m.arg 1) = some text) :
    Registry.standard.call 14 m = (.ok .proceed, m') ↔ m.HoldsText (m.arg 2) text ∧
      m' = { m.note (fun _ => .calling 14 "core" "store_literal") with
        memory := m.memory.write (m.arg 2).toInt.toNat (Utf8.encode text ++ [0]) }.setArg 0
          (Int32.ofNat (Utf8.encode text).length) := by
  by_cases h : m.HoldsText (m.arg 2) text
  · rw [Registry.call_eq_ok Registry.find?_storeLiteral
      (Service.storeLiteral_of_holdsText hliteral h)]
    simp only [h, true_and, Prod.mk.injEq]
    exact eq_comm
  · obtain ⟨len, hlen⟩ := Service.storeLiteral_of_not_holdsText
      (m := m.note fun _ => .calling 14 "core" "store_literal") hliteral h
    simp [Registry.call_eq_error Registry.find?_storeLiteral hlen, h]

theorem storesText_of_call (hliteral : m.program.literal? (m.arg 1) = some text)
    (h : Registry.standard.call 14 m = (.ok .proceed, m')) : m.StoresText text m' := by
  obtain ⟨hroom, rfl⟩ := (call_storeLiteral_eq_ok_iff hliteral).1 h
  obtain ⟨hlt, hnonneg, hlen, hend⟩ := holdsText_iff.1 hroom
  rw [Int32.toInt_ofNat_of_lt hlt] at hend
  have hfits : (m.arg 2).toInt.toNat + (Utf8.encode text ++ [0]).length ≤ m.memory.size := by
    rw [List.length_append, List.length_singleton]
    omega
  constructor
  case length => rw [arg_setArg, Int32.toInt_ofNat_of_lt (by omega)]
  case stored => exact Buffer.holds_write hfits
  case untouched =>
    intro i hi
    show (m.memory.write _ _).get i = _
    rw [Buffer.get_write hfits]
    split
    · rw [List.getElem?_eq_none, Option.getD_none]
      rw [List.length_append, List.length_singleton]
      omega
    · rfl
  case size_memory => exact Buffer.size_write _ _ _
  case frame =>
    rw [arg_setArg]
    rfl

/-- A stored literal without a NUL character is printed back. -/
theorem printsBack (hliteral : m.program.literal? (m.arg 1) = some text) (hnul : '\x00' ∉ text) :
    m.PrintsBack text := by
  constructor
  case succeeds_iff =>
    simp only [call_storeLiteral_eq_ok_iff hliteral, exists_and_left, exists_eq, and_true]
  case room_iff => exact fun hlt => holdsText_iff_of_length_lt hlt
  case refused =>
    intro h
    obtain ⟨len, hlen⟩ := Service.storeLiteral_of_not_holdsText
      (m := m.note fun _ => .calling 14 "core" "store_literal") hliteral h
    exact ⟨len, Registry.call_eq_error Registry.find?_storeLiteral hlen⟩
  case stored => exact fun m' h => storesText_of_call hliteral h
  case printed =>
    intro m' after h hsize hbytes harg hsink
    have hroom := ((call_storeLiteral_eq_ok_iff hliteral).1 h).1
    obtain ⟨len, hlen, hnonneg, -, hend⟩ := hroom
    have hstored := storesText_of_call hliteral h
    have hholds : after.memory.Holds (after.arg 1).toInt.toNat (Utf8.encode text ++ [0]) := by
      intro k b hb
      obtain ⟨hk, -⟩ := List.getElem?_eq_some_iff.1 hb
      rw [List.length_append, List.length_singleton] at hk
      rw [harg, hbytes k (by omega)]
      exact hstored.stored k b hb
    have hle : (after.arg 1).toInt ≤ after.memory.size := by
      rw [harg, hsize, hstored.size_memory]
      omega
    let noted := after.note fun _ => .calling 2 "core" "print_cstr"
    have hnoted : noted.console.sink ≠ .full := by simpa [noted, note] using hsink
    have hprint := Service.printBytes_of_holds (m := noted) (harg ▸ hnonneg) hle hholds hnul hnoted
    refine ⟨_, Registry.call_eq_ok Registry.find?_printBytes hprint, ?_, ?_⟩
    · rw [Console.output_push]
      simp [Console.output, noted, note]
    · exact Console.input_note _ _

/-- The text may have characters of several bytes and end with the last byte of memory. -/
theorem printsBack_end_of_memory :
    let p : Program := { strings := #["é\n😀".toList] }
    let m := (start { memorySize := 11 } p {}).setArg 2 3
    m.program.literal? (m.arg 1) = some "é\n😀".toList ∧ '\x00' ∉ "é\n😀".toList ∧
      m.HoldsText (m.arg 2) "é\n😀".toList ∧ m.PrintsBack "é\n😀".toList := by
  intro p m
  have hliteral : m.program.literal? (m.arg 1) = some "é\n😀".toList := by decide
  have hnul : '\x00' ∉ "é\n😀".toList := by decide
  have hlen : (8 : Int32).toInt = (Utf8.encode "é\n😀".toList).length + 1 := by decide
  have hrange : m.HoldsRange (m.arg 2) 8 := ⟨by decide, by decide, by decide⟩
  exact ⟨hliteral, hnul, ⟨8, hlen, hrange⟩, printsBack hliteral hnul⟩

end Machine

end RegisterMachine
