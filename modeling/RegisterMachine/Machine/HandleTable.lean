/-!
# Handle tables

A table hands out handles, the natural numbers from zero on, and keeps a value for each handle that
is live. A released handle is given out again before a new one is made.
-/

namespace RegisterMachine

/-- Which of several released handles is given out first. -/
inductive ReuseOrder where
  | oldestFirst
  | newestFirst
  deriving DecidableEq, Repr

structure HandleTable (β : Type) where
  /-- For each handle ever made its value, or `none` if it is released. -/
  entries : Array (Option β) := #[]
  /-- The released handles, the next one to give out first. -/
  released : List Nat := []

namespace HandleTable

variable {β : Type}

def get? (t : HandleTable β) (h : Nat) : Option β :=
  t.entries[h]?.join

def live (t : HandleTable β) : Nat :=
  t.entries.countP Option.isSome

/-- Gives out a handle for a value. -/
def insert (t : HandleTable β) (x : β) : Nat × HandleTable β :=
  match t.released with
  | h :: released => (h, { entries := t.entries.setIfInBounds h (some x), released })
  | [] => (t.entries.size, { t with entries := t.entries.push (some x) })

def set (t : HandleTable β) (h : Nat) (x : β) : HandleTable β :=
  { t with entries := t.entries.setIfInBounds h (some x) }

def release (order : ReuseOrder) (t : HandleTable β) (h : Nat) : HandleTable β where
  entries := t.entries.setIfInBounds h none
  released :=
    match order with
    | .oldestFirst => t.released ++ [h]
    | .newestFirst => h :: t.released

end HandleTable

end RegisterMachine
