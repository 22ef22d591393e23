import RegisterMachine.Machine.Action
import RegisterMachine.Machine.Fault

/-!
# The call stack

The addresses of the calls that have not returned, bounded in number.
-/

namespace RegisterMachine

structure CallStack where
  /-- The addresses of the pending calls, the innermost last. -/
  frames : Array Nat := #[]
  capacity : Nat
  deriving DecidableEq, Repr

namespace CallStack

/-- The number of pending calls. -/
def depth (s : CallStack) : Nat :=
  s.frames.size

/-- The pending calls, the innermost first. -/
def callers (s : CallStack) : List Nat :=
  s.frames.toList.reverse

def push (pc : Nat) : Action CallStack Fault Unit := do
  let s ← get
  if s.capacity ≤ s.depth then throw (.stackOverflow s.capacity)
  else set { s with frames := s.frames.push pc }

def pop : Action CallStack Fault Nat := do
  let s ← get
  match s.frames.back? with
  | none => throw .returnWithoutCall
  | some pc => do
    set { s with frames := s.frames.pop }
    return pc

variable {s t : CallStack} {pc : Nat}

theorem length_callers (s : CallStack) : s.callers.length = s.depth := by
  simp [callers, depth]

theorem push_of_full (h : s.capacity ≤ s.depth) :
    push pc s = (.error (.stackOverflow s.capacity), s) := by
  simp [push, h]

theorem push_of_room (h : s.depth < s.capacity) :
    push pc s = (.ok (), { s with frames := s.frames.push pc }) := by
  simp [push, Nat.not_le.2 h]

theorem pop_of_empty (h : s.frames.back? = none) : pop s = (.error .returnWithoutCall, s) := by
  simp [pop, h]

theorem pop_of_back? (h : s.frames.back? = some pc) :
    pop s = (.ok pc, { s with frames := s.frames.pop }) := by
  simp only [pop, Action.get_bind, h]
  rfl

theorem callers_of_push (h : push pc s = (.ok (), t)) :
    t.callers = pc :: s.callers ∧ t.capacity = s.capacity := by
  rcases Nat.lt_or_ge s.depth s.capacity with hroom | hfull
  · rw [push_of_room hroom] at h
    cases h
    simp [callers]
  · rw [push_of_full hfull] at h
    cases h

theorem depth_lt_of_push (h : push pc s = (.ok (), t)) : s.depth < s.capacity := by
  rcases Nat.lt_or_ge s.depth s.capacity with hroom | hfull
  · exact hroom
  · rw [push_of_full hfull] at h
    cases h

theorem callers_of_pop (h : pop s = (.ok pc, t)) :
    s.callers = pc :: t.callers ∧ t.capacity = s.capacity := by
  cases hback : s.frames.back? with
  | none =>
    rw [pop_of_empty hback] at h
    cases h
  | some a =>
    rw [pop_of_back? hback] at h
    cases h
    obtain ⟨xs, hxs⟩ := Array.back?_eq_some_iff.1 hback
    simp [callers, hxs]

/-- A call stack is its pending calls and its capacity. -/
theorem ext_callers (h : s.callers = t.callers) (hc : s.capacity = t.capacity) : s = t := by
  cases s
  cases t
  simp_all [callers]

end CallStack

end RegisterMachine
