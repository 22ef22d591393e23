import RegisterMachine.Machine.Basic
import RegisterMachine.Proofs.Action
import RegisterMachine.Proofs.Machine.Buffer

/-!
# Words in memory

Any four bytes of memory hold a word, at every alignment. Access to the word at an address succeeds
exactly if the address is not negative and all four bytes lie in memory (`Machine.HoldsWord`), and
the sum that decides this never wraps around. `Machine.keepsWords` says what a store changes, and
what loads read before and after it.
-/

namespace RegisterMachine.Machine

/-- The four bytes from the address on lie in memory. -/
def HoldsWord (m : Machine) (a : Int32) : Prop :=
  0 ≤ a.toInt ∧ a.toInt + 4 ≤ m.memory.size

/-- Memory is a store of words. -/
structure KeepsWords (m : Machine) : Prop where
  load_iff : ∀ a, (∃ v, m.loadWord a = .ok v) ↔ m.HoldsWord a
  store_iff : ∀ a v, (∃ m', storeWord a v m = (.ok (), m')) ↔ m.HoldsWord a
  outOfRange : ∀ a v, ¬ m.HoldsWord a →
    m.loadWord a = .error (.memoryOutOfRange a.toInt 4 m.memory.size) ∧
      storeWord a v m = (.error (.memoryOutOfRange a.toInt 4 m.memory.size), m)
  /-- Nothing but memory changes, and its size does not. -/
  frame : ∀ a v m', storeWord a v m = (.ok (), m') →
    m' = { m with memory := m'.memory } ∧ m'.memory.size = m.memory.size
  /-- The bytes of the word are its digits to the base 256, the lowest first. -/
  stored : ∀ a v m' k, storeWord a v m = (.ok (), m') → k < 4 →
    (m'.memory.get (a.toInt.toNat + k)).toNat = v.toUInt32.toNat >>> (8 * k) % 256
  untouched : ∀ a v m' (i : Nat), storeWord a v m = (.ok (), m') → i < a.toInt ∨ a.toInt + 4 ≤ i →
    m'.memory.get i = m.memory.get i
  load_store : ∀ a v m', storeWord a v m = (.ok (), m') → m'.loadWord a = .ok v
  load_disjoint : ∀ a b v m', storeWord a v m = (.ok (), m') → 4 ≤ (a.toInt - b.toInt).natAbs →
    m'.loadWord b = m.loadWord b
  /-- A word that is stored back where it was loaded changes nothing. -/
  store_load : ∀ a v, m.loadWord a = .ok v → storeWord a v m = (.ok (), m)

variable {m m' : Machine} {a b v : Int32} {i : Nat}

theorem wordAt_of_holdsWord (h : m.HoldsWord a) : m.wordAt a = .ok a.toInt.toNat := by
  have hfits : 0 ≤ a.toInt ∧ a.toInt + (4 : Nat) ≤ m.memory.size := h
  rw [wordAt, range?, Word.filter_index?, if_pos hfits]

theorem wordAt_of_not_holdsWord (h : ¬ m.HoldsWord a) :
    m.wordAt a = .error (.memoryOutOfRange a.toInt 4 m.memory.size) := by
  have hfits : ¬ (0 ≤ a.toInt ∧ a.toInt + (4 : Nat) ≤ m.memory.size) := h
  rw [wordAt, range?, Word.filter_index?, if_neg hfits]

/-- The word with the four bytes from an index on. -/
theorem loadWord_of_holdsWord (h : m.HoldsWord a) :
    m.loadWord a = .ok (Word.ofBytes (m.memory.get a.toInt.toNat)
      (m.memory.get (a.toInt.toNat + 1)) (m.memory.get (a.toInt.toNat + 2))
      (m.memory.get (a.toInt.toNat + 3))).toInt32 := by
  rw [loadWord, wordAt_of_holdsWord h]
  rfl

theorem storeWord_of_holdsWord (h : m.HoldsWord a) :
    storeWord a v m =
      (.ok (), { m with memory := m.memory.write a.toInt.toNat (Word.toBytes v.toUInt32) }) := by
  rw [storeWord, Action.get_bind, wordAt_of_holdsWord h]
  rfl

theorem loadWord_of_not_holdsWord (h : ¬ m.HoldsWord a) :
    m.loadWord a = .error (.memoryOutOfRange a.toInt 4 m.memory.size) := by
  rw [loadWord, wordAt_of_not_holdsWord h]
  rfl

theorem storeWord_of_not_holdsWord (h : ¬ m.HoldsWord a) :
    storeWord a v m = (.error (.memoryOutOfRange a.toInt 4 m.memory.size), m) := by
  rw [storeWord, Action.get_bind, wordAt_of_not_holdsWord h]
  rfl

theorem storeWord_eq_ok_iff : storeWord a v m = (.ok (), m') ↔ m.HoldsWord a ∧
    m' = { m with memory := m.memory.write a.toInt.toNat (Word.toBytes v.toUInt32) } := by
  by_cases h : m.HoldsWord a
  · simp [storeWord_of_holdsWord h, h, eq_comm]
  · simp [storeWord_of_not_holdsWord h, h]

theorem holdsWord_of_loadWord (h : m.loadWord a = .ok v) : m.HoldsWord a := by
  by_contra hout
  rw [loadWord_of_not_holdsWord hout] at h
  cases h

/-- A store covers the four bytes of its word and no others. -/
theorem get_of_storeWord (h : storeWord a v m = (.ok (), m')) (i : Nat) :
    m'.memory.get i = if a.toInt.toNat ≤ i then
      (Word.toBytes v.toUInt32)[i - a.toInt.toNat]?.getD (m.memory.get i) else m.memory.get i := by
  obtain ⟨⟨hnonneg, hend⟩, rfl⟩ := storeWord_eq_ok_iff.1 h
  have hlength : (Word.toBytes v.toUInt32).length = 4 := rfl
  exact Buffer.get_write (by omega) i

theorem get_of_storeWord_of_outside (h : storeWord a v m = (.ok (), m'))
    (hi : i < a.toInt ∨ a.toInt + 4 ≤ i) : m'.memory.get i = m.memory.get i := by
  have hnonneg : 0 ≤ a.toInt := (storeWord_eq_ok_iff.1 h).1.1
  rw [get_of_storeWord h]
  split
  · rename_i hle
    have hlength : (Word.toBytes v.toUInt32).length ≤ i - a.toInt.toNat := by
      show 4 ≤ _
      omega
    rw [List.getElem?_eq_none hlength]
    rfl
  · rfl

theorem holdsWord_of_storeWord (h : storeWord a v m = (.ok (), m')) (b : Int32) :
    m'.HoldsWord b ↔ m.HoldsWord b := by
  obtain ⟨-, rfl⟩ := storeWord_eq_ok_iff.1 h
  simp [HoldsWord]

/-- What was stored is read back. -/
theorem loadWord_of_storeWord (h : storeWord a v m = (.ok (), m')) : m'.loadWord a = .ok v := by
  have hholds : m.HoldsWord a := (storeWord_eq_ok_iff.1 h).1
  have hbyte (k : Nat) : m'.memory.get (a.toInt.toNat + k) =
      (Word.toBytes v.toUInt32)[k]?.getD (m.memory.get (a.toInt.toNat + k)) := by
    rw [get_of_storeWord h, if_pos (Nat.le_add_right _ _), Nat.add_sub_cancel_left]
  have hfirst := hbyte 0
  rw [Nat.add_zero] at hfirst
  rw [loadWord_of_holdsWord ((holdsWord_of_storeWord h a).2 hholds), hfirst, hbyte, hbyte, hbyte]
  exact congrArg (fun w : UInt32 => Except.ok w.toInt32) (Word.ofBytes_toBytes v.toUInt32)

/-- Words that share no byte with the stored one are as before. -/
theorem loadWord_of_storeWord_of_disjoint (h : storeWord a v m = (.ok (), m'))
    (hb : 4 ≤ (a.toInt - b.toInt).natAbs) : m'.loadWord b = m.loadWord b := by
  have hsize : m'.memory.size = m.memory.size := by
    obtain ⟨-, rfl⟩ := storeWord_eq_ok_iff.1 h
    exact Buffer.size_write _ _ _
  by_cases hholds : m.HoldsWord b
  · have hbyte (k : Nat) (hk : k < 4) :
        m'.memory.get (b.toInt.toNat + k) = m.memory.get (b.toInt.toNat + k) := by
      apply get_of_storeWord_of_outside h
      have hnonneg := hholds.1
      omega
    have hfirst := hbyte 0 (by omega)
    rw [Nat.add_zero] at hfirst
    rw [loadWord_of_holdsWord ((holdsWord_of_storeWord h b).2 hholds), loadWord_of_holdsWord hholds,
      hfirst, hbyte 1 (by omega), hbyte 2 (by omega), hbyte 3 (by omega)]
  · rw [loadWord_of_not_holdsWord (mt (holdsWord_of_storeWord h b).1 hholds),
      loadWord_of_not_holdsWord hholds, hsize]

theorem storeWord_of_loadWord (h : m.loadWord a = .ok v) : storeWord a v m = (.ok (), m) := by
  have hholds := holdsWord_of_loadWord h
  rw [loadWord_of_holdsWord hholds] at h
  obtain rfl := Except.ok.inj h
  rw [storeWord_of_holdsWord hholds]
  have hbytes : Word.toBytes (Word.ofBytes (m.memory.get a.toInt.toNat)
      (m.memory.get (a.toInt.toNat + 1)) (m.memory.get (a.toInt.toNat + 2))
      (m.memory.get (a.toInt.toNat + 3))).toInt32.toUInt32 = m.memory.slice a.toInt.toNat 4 :=
    Word.toBytes_ofBytes _ _ _ _
  rw [hbytes, Buffer.write_slice]

/-- Words are kept by every memory, whatever its size and what it holds. -/
theorem keepsWords (m : Machine) : m.KeepsWords := by
  constructor
  case load_iff =>
    intro a
    constructor
    · rintro ⟨v, hv⟩
      exact holdsWord_of_loadWord hv
    · exact fun h => ⟨_, loadWord_of_holdsWord h⟩
  case store_iff =>
    intro a v
    constructor
    · rintro ⟨m', hm'⟩
      exact (storeWord_eq_ok_iff.1 hm').1
    · exact fun h => ⟨_, storeWord_of_holdsWord h⟩
  case outOfRange =>
    exact fun a v h => ⟨loadWord_of_not_holdsWord h, storeWord_of_not_holdsWord h⟩
  case frame =>
    intro a v m' h
    obtain ⟨-, rfl⟩ := storeWord_eq_ok_iff.1 h
    exact ⟨rfl, Buffer.size_write _ _ _⟩
  case stored =>
    intro a v m' k h hk
    have hdigit := Word.toNat_getElem?_toBytes v.toUInt32 hk
    obtain ⟨byte, hbyte, hdigit⟩ := Option.map_eq_some_iff.1 hdigit
    rw [get_of_storeWord h, if_pos (Nat.le_add_right _ _), Nat.add_sub_cancel_left, hbyte]
    exact hdigit
  case untouched => exact fun a v m' i h hi => get_of_storeWord_of_outside h hi
  case load_store => exact fun a v m' h => loadWord_of_storeWord h
  case load_disjoint => exact fun a b v m' h hb => loadWord_of_storeWord_of_disjoint h hb
  case store_load => exact fun a v h => storeWord_of_loadWord h

end RegisterMachine.Machine
