import Std.Data.ExtTreeMap

/-!
# Buffers

A buffer is a row of cells that all start at zero. Only the cells that differ from zero are stored,
so a large buffer costs nothing before it is used. The invariant makes the stored form unique: two
buffers of one size that read alike are equal (`Buffer.ext_get`).
-/

namespace RegisterMachine

/-- The zero of a byte. The instance has a name so that buffers of bytes have one type everywhere. -/
instance (priority := high) instZeroByte : Zero UInt8 :=
  ⟨0⟩

structure Buffer (α : Type) [Zero α] where
  size : Nat
  /-- The cells that differ from zero. -/
  cells : Std.ExtTreeMap Nat α
  lt_size : ∀ i : Nat, i ∈ cells → i < size := by simp
  ne_zero : ∀ i : Nat, cells[i]? ≠ some 0 := by simp

namespace Buffer

variable {α : Type} [Zero α]

/-- The value of a cell; cells outside of the buffer read as zero. -/
def get (b : Buffer α) (i : Nat) : α :=
  b.cells[i]?.getD 0

def get? (b : Buffer α) (i : Nat) : Option α :=
  if i < b.size then some (b.get i) else none

def zeros (size : Nat) : Buffer α where
  size := size
  cells := ∅

@[simp] theorem size_zeros (n : Nat) : (zeros n : Buffer α).size = n := rfl

@[simp] theorem get_zeros (n i : Nat) : (zeros n : Buffer α).get i = 0 := by
  simp [get, zeros]

theorem getElem?_cells (b : Buffer α) (i : Nat) [DecidableEq α] :
    b.cells[i]? = if b.get i = 0 then none else some (b.get i) := by
  cases h : b.cells[i]? with
  | none => simp [get, h]
  | some v =>
    have hv : v ≠ 0 := fun hv => b.ne_zero i (hv ▸ h)
    simp [get, h, hv]

theorem get_of_size_le (b : Buffer α) {i : Nat} (h : b.size ≤ i) : b.get i = 0 := by
  have : i ∉ b.cells := fun hi => Nat.not_lt.2 h (b.lt_size i hi)
  simp [get, Std.ExtTreeMap.getElem?_eq_none this]

/-- Buffers of one size that read alike are equal. -/
theorem ext_get [DecidableEq α] {a b : Buffer α} (hs : a.size = b.size)
    (h : ∀ i, a.get i = b.get i) : a = b := by
  have hc : a.cells = b.cells :=
    Std.ExtTreeMap.ext_getElem? fun i => by rw [getElem?_cells, getElem?_cells, h]
  cases a
  cases b
  simp_all

variable [DecidableEq α]

/-- Changes a cell; outside of the buffer nothing changes. -/
def set (b : Buffer α) (i : Nat) (v : α) : Buffer α :=
  if h : i < b.size then
    if hv : v = 0 then
      { size := b.size
        cells := b.cells.erase i
        lt_size := fun j hj => b.lt_size j (Std.ExtTreeMap.mem_of_mem_erase hj)
        ne_zero := fun j => by
          have := b.ne_zero j
          rw [Std.ExtTreeMap.getElem?_erase]
          split <;> simp_all }
    else
      { size := b.size
        cells := b.cells.insert i v
        lt_size := fun j hj => by
          rcases Std.ExtTreeMap.mem_insert.1 hj with hj | hj
          · rwa [← Std.LawfulEqCmp.compare_eq_iff_eq.1 hj]
          · exact b.lt_size j hj
        ne_zero := fun j => by
          have := b.ne_zero j
          rw [Std.ExtTreeMap.getElem?_insert]
          split <;> simp_all }
  else b

@[simp] theorem size_set (b : Buffer α) (i : Nat) (v : α) : (b.set i v).size = b.size := by
  unfold set
  split
  · split <;> rfl
  · rfl

theorem get_set (b : Buffer α) (i j : Nat) (v : α) :
    (b.set i v).get j = if i = j ∧ i < b.size then v else b.get j := by
  unfold set
  by_cases h : i < b.size
  · rw [dif_pos h]
    simp only [h, and_true]
    split <;> by_cases hij : i = j <;>
      simp_all [get, Std.ExtTreeMap.getElem?_erase, Std.ExtTreeMap.getElem?_insert]
  · simp [h]

def write (b : Buffer α) (start : Nat) : List α → Buffer α
  | [] => b
  | v :: vs => (b.set start v).write (start + 1) vs

@[simp] theorem size_write (b : Buffer α) (start : Nat) (vs : List α) :
    (b.write start vs).size = b.size := by
  induction vs generalizing b start with
  | nil => rfl
  | cons v vs ih => rw [write, ih, size_set]

/-- Keeps the cells whose index satisfies `p` and clears the others; the size becomes `size`. -/
def restrict (b : Buffer α) (size : Nat) (p : Nat → Bool) : Buffer α where
  size := size
  cells := b.cells.filter fun i _ => p i && decide (i < size)
  lt_size := fun i hi => by
    obtain ⟨_, h⟩ := Std.ExtTreeMap.mem_filter.1 hi
    simp_all
  ne_zero := fun i => by
    have := b.ne_zero i
    simp only [Std.ExtTreeMap.getElem?_filter, ne_eq, Option.pfilter_eq_some_iff, not_exists]
    intro h
    exact absurd h this

/-- Changes the size: the cells that both sizes have keep their values, new ones are zero. -/
def resize (b : Buffer α) (size : Nat) : Buffer α :=
  b.restrict size fun _ => true

/-- The stored cells of a range, in order. -/
def stored (b : Buffer α) (start len : Nat) : List (Nat × α) :=
  b.cells.toList.filter fun c => start ≤ c.1 && c.1 < start + len

/-- Copies `len` cells from `src` to `dst`. The ranges may overlap. -/
def copy (b : Buffer α) (src dst len : Nat) : Buffer α :=
  (b.stored src len).foldl (fun r c => r.set (c.1 - src + dst) c.2)
    (b.restrict b.size fun i => !(dst ≤ i && i < dst + len))

@[simp] theorem size_copy (b : Buffer α) (src dst len : Nat) :
    (b.copy src dst len).size = b.size := by
  have hfold (cs : List (Nat × α)) (r : Buffer α) :
      (cs.foldl (fun r c => r.set (c.1 - src + dst) c.2) r).size = r.size := by
    induction cs generalizing r with
    | nil => rfl
    | cons c cs ih => rw [List.foldl_cons, ih, size_set]
  exact hfold _ _

def fill (b : Buffer α) (v : α) : Buffer α :=
  b.write 0 (List.replicate b.size v)

omit [DecidableEq α] in
def slice (b : Buffer α) (start len : Nat) : List α :=
  (List.range' start len).map b.get

omit [DecidableEq α] in
def toList (b : Buffer α) : List α :=
  b.slice 0 b.size

/-- The values from `start` up to the first zero or the end of the buffer. -/
def untilZero (b : Buffer α) (start : Nat) : List α :=
  go (b.size - start) start
where
  /-- At most as many values as the first argument says. -/
  go : Nat → Nat → List α
    | 0, _ => []
    | n + 1, i => if b.get i = 0 then [] else b.get i :: go n (i + 1)

end Buffer

end RegisterMachine
