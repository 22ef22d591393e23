import RegisterMachine.Machine.Action
import RegisterMachine.Machine.Buffer
import RegisterMachine.Machine.HandleTable
import RegisterMachine.Numeric.Word

/-!
# The heap

Programs get storage outside of their memory by handle. There are two disciplines. Blocks are rows
of bytes of positive size, and a released handle is reused oldest first; slots are rows of words
that may be empty and never shrink, and a released handle is reused newest first.
-/

namespace RegisterMachine

inductive AllocError where
  | invalidSize (size : Int32)
  /-- The handle was never given out, or it is released. -/
  | unknownHandle (handle : Int32)
  | shrink (handle : Int32) (old new : Nat)
  | outOfBounds (handle offset : Int32) (size : Nat)
  | exhausted
  deriving DecidableEq, Repr

def AllocError.message : AllocError → String
  | .invalidSize size => s!"invalid allocation size {size.toInt}"
  | .unknownHandle handle => s!"unknown or freed allocation handle {handle.toInt}"
  | .shrink handle old new => s!"cannot shrink allocation {handle.toInt} from {old} to {new}"
  | .outOfBounds handle offset size =>
    s!"offset {offset.toInt} is outside allocation {handle.toInt} of size {size}"
  | .exhausted => "no allocation handles left"

namespace HandleTable

variable {β : Type}

/-- The table index and the value of a live handle. -/
def find (t : HandleTable β) (handle : Int32) : Except AllocError (Nat × β) :=
  match (Word.index? handle).bind fun h => (t.get? h).map fun x => (h, x) with
  | some entry => .ok entry
  | none => .error (.unknownHandle handle)

def free (order : ReuseOrder) (handle : Int32) : Action (HandleTable β) AllocError Unit := do
  let (h, _) ← (← get).find handle
  modify fun t => t.release order h

end HandleTable

abbrev Blocks := HandleTable (Buffer UInt8)

namespace Blocks

/-- The size of a block, which is positive. -/
def size (size : Int32) : Except AllocError Nat :=
  if 0 < size then .ok size.toInt.toNat else .error (.invalidSize size)

/-- The number of handles for blocks: all that a word can hold. -/
def handleLimit : Nat := 0x80000000

/-- The block is in the table before its handle turns out to be no word, and stays there. -/
def alloc (size : Int32) : Action Blocks AllocError Int32 := do
  let size ← Blocks.size size
  let h ← modifyGet fun t => t.insert (.zeros size)
  if h < handleLimit then return Int32.ofNat h else throw .exhausted

/-- Changes the size of a block; the bytes that both sizes have are kept. -/
def realloc (handle size : Int32) : Action Blocks AllocError Unit := do
  let size ← Blocks.size size
  let (h, block) ← (← get).find handle
  modify fun t => t.set h (block.resize size)

def wordAt (block : Buffer UInt8) (handle offset : Int32) : Except AllocError Nat :=
  match (Word.index? offset).filter fun start => start + 4 ≤ block.size with
  | some start => .ok start
  | none => .error (.outOfBounds handle offset block.size)

def load (t : Blocks) (handle offset : Int32) : Except AllocError Int32 := do
  let (_, block) ← t.find handle
  let i ← wordAt block handle offset
  return (Word.ofBytes (block.get i) (block.get (i + 1)) (block.get (i + 2))
    (block.get (i + 3))).toInt32

def store (handle offset value : Int32) : Action Blocks AllocError Unit := do
  let (h, block) ← (← get).find handle
  let i ← wordAt block handle offset
  modify fun t => t.set h (block.write i (Word.toBytes value.toUInt32))

/-- The number of blocks: every handle that is not released has one. -/
def live (t : Blocks) : Nat :=
  t.entries.size - t.released.length

end Blocks

abbrev Slots (α : Type) [Zero α] := HandleTable (Buffer α)

namespace Slots

variable {α : Type} [Zero α] [DecidableEq α]

/-- The size of a row, which may be zero. -/
def size (size : Int32) : Except AllocError Nat :=
  match Word.index? size with
  | some n => .ok n
  | none => .error (.invalidSize size)

/-- The number of handles for rows. The next one is kept as a word, so the largest word is none. -/
def handleLimit : Nat := 0x7FFFFFFF

omit [DecidableEq α] in
def alloc (size : Nat) : Action (Slots α) AllocError Int32 := do
  let t ← get
  if t.released = [] ∧ handleLimit ≤ t.entries.size then throw .exhausted
  else do
    let h ← modifyGet fun t => t.insert (.zeros size)
    return Int32.ofNat h

/-- Changes the size of a row, which must not shrink. -/
def realloc (handle : Int32) (size : Nat) : Action (Slots α) AllocError Unit := do
  let (h, row) ← (← get).find handle
  if size < row.size then throw (.shrink handle row.size size)
  else modify fun t => t.set h (row.resize size)

def fill (handle : Int32) (value : α) : Action (Slots α) AllocError Unit := do
  let (h, row) ← (← get).find handle
  modify fun t => t.set h (row.fill value)

omit [DecidableEq α] in
def valueAt (row : Buffer α) (handle offset : Int32) : Except AllocError Nat :=
  match (Word.index? offset).filter (· < row.size) with
  | some i => .ok i
  | none => .error (.outOfBounds handle offset row.size)

omit [DecidableEq α] in
def load (t : Slots α) (handle offset : Int32) : Except AllocError α := do
  let (_, row) ← t.find handle
  return row.get (← valueAt row handle offset)

def store (handle offset : Int32) (value : α) : Action (Slots α) AllocError Unit := do
  let (h, row) ← (← get).find handle
  let i ← valueAt row handle offset
  modify fun t => t.set h (row.set i value)

end Slots

/-- The two ways to run a heap. -/
inductive Discipline where
  /-- Offsets and sizes count bytes. -/
  | blocks
  /-- Offsets and sizes count words. -/
  | slots
  deriving DecidableEq, Repr

inductive Heap where
  | blocks (t : Blocks)
  | slots (t : Slots Int32)

namespace Heap

def empty : Discipline → Heap
  | .blocks => blocks {}
  | .slots => slots {}

/-- Does one of two actions, as the discipline has it. -/
def onTable {α : Type} (onBlocks : Action Blocks AllocError α)
    (onSlots : Action (Slots Int32) AllocError α) : Action Heap AllocError α
  | blocks t =>
    let (result, t) := onBlocks t
    (result, blocks t)
  | slots t =>
    let (result, t) := onSlots t
    (result, slots t)

def alloc (size : Int32) : Action Heap AllocError Int32 :=
  onTable (Blocks.alloc size) do Slots.alloc (← Slots.size size)

def realloc (handle size : Int32) : Action Heap AllocError Unit :=
  onTable (Blocks.realloc handle size) do Slots.realloc handle (← Slots.size size)

def free (handle : Int32) : Action Heap AllocError Unit :=
  onTable (HandleTable.free .oldestFirst handle) (HandleTable.free .newestFirst handle)

def size (h : Heap) (handle : Int32) : Except AllocError Int32 :=
  match h with
  | blocks t => (t.find handle).map fun r => Int32.ofNat r.2.size
  | slots t => (t.find handle).map fun r => Int32.ofNat r.2.size

def load (h : Heap) (handle offset : Int32) : Except AllocError Int32 :=
  match h with
  | blocks t => t.load handle offset
  | slots t => t.load handle offset

def store (handle offset value : Int32) : Action Heap AllocError Unit :=
  onTable (Blocks.store handle offset value) (Slots.store handle offset value)

def live : Heap → Nat
  | blocks t => Blocks.live t
  | slots t => t.live

end Heap

end RegisterMachine
