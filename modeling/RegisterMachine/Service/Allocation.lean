import RegisterMachine.Service.Basic

/-!
# Heap services

Access to the heap of the machine. Handles and offsets come in the syscall registers from `S1` on;
results go to `S0`.
-/

namespace RegisterMachine

namespace Service

def onHeap {α : Type} (x : Action Heap AllocError α) : Action Machine ServiceError α :=
  x.onPart (·.heap) (fun heap m => { m with heap }) .alloc

def alloc (m : Machine) : Reply :=
  proceed m (onHeap (Heap.alloc (m.arg 1))) fun handle m => m.setArg 0 handle

def realloc (m : Machine) : Reply :=
  proceed m (onHeap (Heap.realloc (m.arg 1) (m.arg 2))) fun _ m => m

def free (m : Machine) : Reply :=
  proceed m (onHeap (Heap.free (m.arg 1))) fun _ m =>
    m.note fun _ => .freed (m.arg 1) m.heap.live

def heapLoad (m : Machine) : Reply :=
  answer m ((m.heap.load (m.arg 1) (m.arg 2)).mapError .alloc)

def heapStore (m : Machine) : Reply :=
  proceed m (onHeap (Heap.store (m.arg 1) (m.arg 2) (m.arg 3))) fun _ m => m

def heapSize (m : Machine) : Reply :=
  answer m ((m.heap.size (m.arg 1)).mapError .alloc)

end Service

/-- The services of the heap. -/
def memoryPlugin : Plugin where
  name := "memory"
  services :=
    [⟨7, "alloc", Service.alloc⟩, ⟨8, "realloc", Service.realloc⟩, ⟨9, "free", Service.free⟩,
      ⟨10, "block_load", Service.heapLoad⟩, ⟨11, "block_store", Service.heapStore⟩,
      ⟨12, "block_size", Service.heapSize⟩]

end RegisterMachine
