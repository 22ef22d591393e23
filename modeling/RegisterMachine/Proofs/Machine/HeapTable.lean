import RegisterMachine.Machine.Heap
import RegisterMachine.Proofs.Action
import RegisterMachine.Proofs.Machine.Buffer
import RegisterMachine.Proofs.Machine.HandleTable

/-!
# The heap as a table of units

Both disciplines of the heap are one table of handles whose values are lists of units, bytes or
words (`Heap.table`). Each operation of the heap is one of that table, and the two disciplines
differ in a few numbers and in the units of a word. What is proved of the table therefore holds of
both.
-/

namespace RegisterMachine

/-- The word that a byte stands for where units are listed. -/
def Word.ofByte (b : UInt8) : Int32 :=
  b.toUInt32.toInt32

/-- The byte that stands for itself. -/
def Word.toByte (w : Int32) : UInt8 :=
  w.toUInt32.toUInt8

theorem Word.toByte_ofByte (b : UInt8) : toByte (ofByte b) = b := by
  simp [toByte, ofByte]

namespace Discipline

/-- The order in which released handles are given out again. -/
def order : Discipline → ReuseOrder
  | blocks => .oldestFirst
  | slots => .newestFirst

/-- How many handles there are. -/
def handleLimit : Discipline → Nat
  | blocks => Blocks.handleLimit
  | slots => Slots.handleLimit

/-- The size that a word stands for: blocks are not empty, and rows may be. -/
def size : Discipline → Int32 → Except AllocError Nat
  | blocks => Blocks.size
  | slots => Slots.size

/-- The number of units of a word. -/
def wordSize : Discipline → Nat
  | blocks => 4
  | slots => 1

/-- The units of a word, in order. -/
def units : Discipline → Int32 → List Int32
  | blocks, v => (Word.toBytes v.toUInt32).map Word.ofByte
  | slots, v => [v]

/-- The word with the given units. -/
def word : Discipline → List Int32 → Int32
  | blocks, [a, b, c, d] =>
    (Word.ofBytes (Word.toByte a) (Word.toByte b) (Word.toByte c) (Word.toByte d)).toInt32
  | slots, [v] => v
  | _, _ => 0

/-- The place of the word at an offset into an allocation with `length` units. -/
def place (d : Discipline) (length : Nat) (handle offset : Int32) : Except AllocError Nat :=
  match (Word.index? offset).filter fun i => i + d.wordSize ≤ length with
  | some i => .ok i
  | none => .error (.outOfBounds handle offset length)

variable (d : Discipline)

/-- Gives out a handle for units. A block is in the table before its handle turns out to be none;
rows are not made where no handle is left. -/
def grant (us : List Int32) : Action (HandleTable (List Int32)) AllocError Int32 := fun t =>
  match d with
  | blocks =>
    let (h, t) := t.insert us
    (if h < Blocks.handleLimit then .ok (Int32.ofNat h) else .error .exhausted, t)
  | slots =>
    if t.released = [] ∧ Slots.handleLimit ≤ t.entries.size then (.error .exhausted, t)
    else
      let (h, t) := t.insert us
      (.ok (Int32.ofNat h), t)

def alloc (size : Int32) : Action (HandleTable (List Int32)) AllocError Int32 := do
  let n ← d.size size
  d.grant (List.replicate n 0)

def realloc (handle size : Int32) : Action (HandleTable (List Int32)) AllocError Unit := do
  let n ← d.size size
  let (i, us) ← (← get).find handle
  if d = .slots ∧ n < us.length then throw (.shrink handle us.length n)
  else modify fun t => t.set i (us.take n ++ List.replicate (n - us.length) 0)

def free (handle : Int32) : Action (HandleTable (List Int32)) AllocError Unit :=
  HandleTable.free d.order handle

def store (handle offset value : Int32) : Action (HandleTable (List Int32)) AllocError Unit := do
  let (i, us) ← (← get).find handle
  let j ← d.place us.length handle offset
  modify fun t => t.set i (us.take j ++ d.units value ++ us.drop (j + d.wordSize))

@[simp] theorem length_units (v : Int32) : (d.units v).length = d.wordSize := by
  cases d <;> rfl

theorem word_units (v : Int32) : d.word (d.units v) = v := by
  cases d with
  | blocks =>
    simp only [units, Word.toBytes, List.map_cons, List.map_nil, word, Word.toByte_ofByte,
      Word.ofBytes_toBytes]
    rfl
  | slots => rfl

end Discipline

namespace HandleTable

variable {β γ : Type} {t : HandleTable β} {f : β → γ} {handle : Int32} {x : β}

theorem find_eq_ok_iff {i : Nat} :
    t.find handle = .ok (i, x) ↔ Word.index? handle = some i ∧ t.get? i = some x := by
  unfold find
  cases h : Word.index? handle with
  | none => simp
  | some j =>
    cases hj : t.get? j with
    | none => simp [hj]; rintro rfl; simp [hj]
    | some y => simp [hj]; grind

theorem eq_of_find_eq_error {e : AllocError} (he : t.find handle = .error e) :
    e = .unknownHandle handle := by
  unfold find at he
  split at he <;> cases he
  rfl

theorem find_map : (t.map f).find handle = (t.find handle).map (Prod.map id f) := by
  unfold find
  cases Word.index? handle with
  | none => rfl
  | some i =>
    rw [Option.bind_some, Option.bind_some, get?_map]
    cases t.get? i <;> rfl

end HandleTable

/-- The units of a block, in order. -/
def Blocks.units (b : Buffer UInt8) : List Int32 :=
  b.toList.map Word.ofByte

namespace Blocks

variable {b : Buffer UInt8} {n i : Nat}

@[simp] theorem length_units : (units b).length = b.size := by
  simp [units]

theorem units_zeros : units (.zeros n) = List.replicate n 0 := by
  rw [units, Buffer.toList_zeros, List.map_replicate]
  rfl

theorem units_resize : units (b.resize n) = (units b).take n ++ List.replicate (n - b.size) 0 := by
  rw [units, Buffer.toList_resize, List.map_append, List.map_take, List.map_replicate]
  rfl

theorem units_write {v : Int32} (h : i + 4 ≤ b.size) :
    units (b.write i (Word.toBytes v.toUInt32)) =
      (units b).take i ++ Discipline.blocks.units v ++ (units b).drop (i + 4) := by
  rw [units, Buffer.toList_write h, List.map_append, List.map_append, List.map_take, List.map_drop]
  rfl

theorem word_units (h : i + 4 ≤ b.size) :
    Discipline.blocks.word (((units b).drop i).take 4) =
      (Word.ofBytes (b.get i) (b.get (i + 1)) (b.get (i + 2)) (b.get (i + 3))).toInt32 := by
  have hget (j : Nat) (hj : j < b.size) : (units b)[j]? = some (Word.ofByte (b.get j)) := by
    rw [units, List.getElem?_map, Buffer.getElem?_toList, if_pos hj]
    rfl
  have htake : ((units b).drop i).take 4 = [Word.ofByte (b.get i), Word.ofByte (b.get (i + 1)),
      Word.ofByte (b.get (i + 2)), Word.ofByte (b.get (i + 3))] := by
    apply List.ext_getElem?
    intro j
    rw [List.getElem?_take, List.getElem?_drop]
    split
    · rename_i hj
      rw [hget (i + j) (by omega)]
      match j, hj with
      | 0, _ | 1, _ | 2, _ | 3, _ => rfl
    · rename_i hj
      rw [List.getElem?_eq_none (Nat.not_lt.1 hj)]
  rw [htake]
  simp only [Discipline.word, Word.toByte_ofByte]

end Blocks

namespace Slots

variable {b : Buffer Int32} {i : Nat}

theorem toList_set {v : Int32} (h : i < b.size) :
    (b.set i v).toList = b.toList.take i ++ Discipline.slots.units v ++ b.toList.drop (i + 1) :=
  Buffer.toList_write (by exact h : i + [v].length ≤ b.size)

theorem word_toList (h : i < b.size) :
    Discipline.slots.word ((b.toList.drop i).take 1) = b.get i := by
  have hget : b.toList[i]? = some (b.get i) := by rw [Buffer.getElem?_toList, if_pos h]
  obtain ⟨hi, hget⟩ := List.getElem?_eq_some_iff.1 hget
  rw [List.drop_eq_getElem_cons hi, hget]
  rfl

end Slots

namespace Heap

/-- The units of all allocations. -/
def table : Heap → HandleTable (List Int32)
  | blocks t => t.map Blocks.units
  | slots t => t.map Buffer.toList

def discipline : Heap → Discipline
  | blocks _ => .blocks
  | slots _ => .slots

theorem discipline_onTable {α : Type} (x : Action Blocks AllocError α)
    (y : Action (Slots Int32) AllocError α) (h : Heap) :
    (onTable x y h).2.discipline = h.discipline := by
  cases h <;> rfl

theorem table_alloc (h : Heap) (size : Int32) :
    Prod.map id table (alloc size h) = h.discipline.alloc size h.table := by
  cases h with
  | blocks t =>
    simp only [alloc, onTable, Blocks.alloc, discipline, Discipline.alloc, Discipline.size, table]
    cases Blocks.size size with
    | error e => rfl
    | ok n =>
      simp only [Action.lift_ok_bind, Action.modifyGet_bind, Discipline.grant,
        ← Blocks.units_zeros, HandleTable.insert_map]
      split <;> rfl
  | slots t =>
    simp only [alloc, onTable, Slots.alloc, discipline, Discipline.alloc, Discipline.size, table]
    cases Slots.size size with
    | error e => rfl
    | ok n =>
      simp only [Action.lift_ok_bind, Action.get_bind, Discipline.grant, ← Buffer.toList_zeros,
        HandleTable.insert_map, HandleTable.released_map, HandleTable.size_entries_map]
      split <;> rfl

theorem table_realloc (h : Heap) (handle size : Int32) :
    Prod.map id table (realloc handle size h) = h.discipline.realloc handle size h.table := by
  cases h with
  | blocks t =>
    simp only [realloc, onTable, Blocks.realloc, discipline, Discipline.realloc, Discipline.size,
      table]
    cases Blocks.size size with
    | error e => rfl
    | ok n =>
      simp only [Action.lift_ok_bind, Action.get_bind, HandleTable.find_map]
      cases t.find handle with
      | error e => rfl
      | ok r =>
        simp only [Action.lift_ok_bind, Except.map, Prod.map, id, reduceCtorEq, false_and, if_false,
          Action.modify_apply, Blocks.length_units, ← Blocks.units_resize, HandleTable.set_map]
        rfl
  | slots t =>
    simp only [realloc, onTable, Slots.realloc, discipline, Discipline.realloc, Discipline.size,
      table]
    cases Slots.size size with
    | error e => rfl
    | ok n =>
      simp only [Action.lift_ok_bind, Action.get_bind, HandleTable.find_map]
      cases t.find handle with
      | error e => rfl
      | ok r =>
        simp only [Action.lift_ok_bind, Except.map, Prod.map, id, true_and, Buffer.length_toList]
        split
        · rfl
        · simp only [Action.modify_apply, ← Buffer.toList_resize, HandleTable.set_map]
          rfl

theorem table_free (h : Heap) (handle : Int32) :
    Prod.map id table (free handle h) = h.discipline.free handle h.table := by
  cases h with
  | blocks t =>
    simp only [free, onTable, HandleTable.free, discipline, Discipline.free, Discipline.order,
      table, Action.get_bind, HandleTable.find_map]
    cases t.find handle with
    | error e => rfl
    | ok r => exact congrArg (Prod.mk _) HandleTable.release_map.symm
  | slots t =>
    simp only [free, onTable, HandleTable.free, discipline, Discipline.free, Discipline.order,
      table, Action.get_bind, HandleTable.find_map]
    cases t.find handle with
    | error e => rfl
    | ok r => exact congrArg (Prod.mk _) HandleTable.release_map.symm

theorem size_eq (h : Heap) (handle : Int32) :
    h.size handle = (h.table.find handle).map fun r => Int32.ofNat r.2.length := by
  cases h with
  | blocks t =>
    simp only [Heap.size, table, HandleTable.find_map]
    cases t.find handle with
    | error e => rfl
    | ok r => simp [Except.map]
  | slots t =>
    simp only [Heap.size, table, HandleTable.find_map]
    cases t.find handle with
    | error e => rfl
    | ok r => simp [Except.map]

theorem load_eq (h : Heap) (handle offset : Int32) : h.load handle offset = (do
    let (_, us) ← h.table.find handle
    let i ← h.discipline.place us.length handle offset
    return h.discipline.word ((us.drop i).take h.discipline.wordSize)) := by
  cases h with
  | blocks t =>
    simp only [load, Blocks.load, Blocks.wordAt, discipline, Discipline.place, table,
      HandleTable.find_map]
    cases t.find handle with
    | error e => rfl
    | ok r =>
      obtain ⟨i, b⟩ := r
      simp only [bind, Except.bind, Except.map, Prod.map, Discipline.wordSize, Blocks.length_units]
      cases hplace : (Word.index? offset).filter fun i => i + 4 ≤ b.size with
      | none => rfl
      | some start =>
        have hle : start + 4 ≤ b.size := by simpa using (Option.filter_eq_some_iff.1 hplace).2
        simp only [Blocks.word_units hle]
  | slots t =>
    simp only [load, Slots.load, Slots.valueAt, discipline, Discipline.place, table,
      HandleTable.find_map]
    cases t.find handle with
    | error e => rfl
    | ok r =>
      obtain ⟨i, b⟩ := r
      simp only [bind, Except.bind, Except.map, Prod.map, Discipline.wordSize, Buffer.length_toList,
        Nat.add_one_le_iff]
      cases hplace : (Word.index? offset).filter (· < b.size) with
      | none => rfl
      | some start =>
        have hlt : start < b.size := by simpa using (Option.filter_eq_some_iff.1 hplace).2
        simp only [Slots.word_toList hlt]

theorem table_store (h : Heap) (handle offset value : Int32) :
    Prod.map id table (store handle offset value h) =
      h.discipline.store handle offset value h.table := by
  cases h with
  | blocks t =>
    simp only [store, onTable, Blocks.store, Blocks.wordAt, discipline, Discipline.store,
      Discipline.place, table, Action.get_bind, HandleTable.find_map]
    cases t.find handle with
    | error e => rfl
    | ok r =>
      obtain ⟨i, b⟩ := r
      simp only [Action.lift_ok_bind, Except.map, Prod.map, Discipline.wordSize,
        Blocks.length_units]
      cases hplace : (Word.index? offset).filter fun i => i + 4 ≤ b.size with
      | none => rfl
      | some start =>
        have hle : start + 4 ≤ b.size := by simpa using (Option.filter_eq_some_iff.1 hplace).2
        simp only [Action.lift_ok_bind, Action.modify_apply, ← Blocks.units_write hle, id,
          HandleTable.set_map]
        rfl
  | slots t =>
    simp only [store, onTable, Slots.store, Slots.valueAt, discipline, Discipline.store,
      Discipline.place, table, Action.get_bind, HandleTable.find_map]
    cases t.find handle with
    | error e => rfl
    | ok r =>
      obtain ⟨i, b⟩ := r
      simp only [Action.lift_ok_bind, Except.map, Prod.map, Discipline.wordSize,
        Buffer.length_toList, Nat.add_one_le_iff]
      cases hplace : (Word.index? offset).filter (· < b.size) with
      | none => rfl
      | some start =>
        have hlt : start < b.size := by simpa using (Option.filter_eq_some_iff.1 hplace).2
        simp only [Action.lift_ok_bind, Action.modify_apply, ← Slots.toList_set hlt, id,
          HandleTable.set_map]
        rfl

end Heap

end RegisterMachine
