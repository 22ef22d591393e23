import RegisterMachine.Service.Standard

/-!
# Calls of services

A call finds its service by the number, records the event and runs the handler. Handlers are built
from a few combinators; what each of them comes to is said here once, and proofs about single
services do not open them again.
-/

namespace RegisterMachine

namespace Console

variable (c : Console) (event : Unit → Event)

@[simp] theorem input_note : (c.note event).input = c.input := by
  unfold note
  split <;> rfl

@[simp] theorem printed_note : (c.note event).printed = c.printed := by
  unfold note
  split <;> rfl

@[simp] theorem sink_note : (c.note event).sink = c.sink := by
  unfold note
  split <;> rfl

theorem output_push (text : Text) :
    { c with printed := c.printed.push text }.output = c.output ++ text ++ ['\n'] := by
  simp [output, Text.unlines]

end Console

namespace Registry

variable {r : Registry} {id : Int32} {e : Registration} {m m' : Machine}

theorem call_eq_ok {outcome : Outcome} (he : r.find? id = some e)
    (h : e.service.handler (m.note fun _ => .calling id e.plugin e.service.name) =
      (.ok outcome, m')) : r.call id m = (.ok outcome, m') := by
  simp only [call, he, h]

theorem call_eq_error {cause : ServiceError} (he : r.find? id = some e)
    (h : e.service.handler (m.note fun _ => .calling id e.plugin e.service.name) =
      (.error cause, m')) : r.call id m = (.error (.syscall id e.service.name cause), m') := by
  simp only [call, he, h]

end Registry

namespace Machine

@[simp] theorem arg_setArg (m : Machine) (n : Fin syscallRegisterCount) (v : Int32) :
    (m.setArg n v).arg n = v := by
  simp [setArg, arg]

/-- The `len` bytes from an address on lie in memory, both numbers being words. -/
def HoldsRange (m : Machine) (address len : Int32) : Prop :=
  0 ≤ address.toInt ∧ 0 ≤ len.toInt ∧ address.toInt + len.toInt ≤ m.memory.size

variable {m : Machine} {address len : Int32}

theorem serviceRange_of_holdsRange (h : m.HoldsRange address len) :
    m.serviceRange address len = .ok address.toInt.toNat := by
  obtain ⟨hnonneg, hlen, hend⟩ := h
  have hfits : 0 ≤ address.toInt ∧ address.toInt + len.toInt.toNat ≤ m.memory.size :=
    ⟨hnonneg, by omega⟩
  rw [serviceRange, Word.index?_of_nonneg hlen, Option.bind_some, range?, Word.filter_index?,
    if_pos hfits]

theorem serviceRange_of_not_holdsRange (h : ¬ m.HoldsRange address len) :
    m.serviceRange address len = .error (.memory address len) := by
  rcases Int.lt_or_le len.toInt 0 with hneg | hlen
  · rw [serviceRange, Word.index?_of_neg hneg, Option.bind_none]
  · have hfits : ¬ (0 ≤ address.toInt ∧ address.toInt + len.toInt.toNat ≤ m.memory.size) :=
      fun hfits => h ⟨hfits.1, hlen, by omega⟩
    rw [serviceRange, Word.index?_of_nonneg hlen, Option.bind_some, range?, Word.filter_index?,
      if_neg hfits]

end Machine

namespace Service

variable {m : Machine} {address len : Int32}

theorem withRange_of_holdsRange (h : m.HoldsRange address len) (next : Nat → Reply) :
    withRange m address len next = next address.toInt.toNat := by
  simp only [withRange, Machine.serviceRange_of_holdsRange h]

theorem withRange_of_not_holdsRange (h : ¬ m.HoldsRange address len) (next : Nat → Reply) :
    withRange m address len next = (.error (.memory address len), m) := by
  simp only [withRange, Machine.serviceRange_of_not_holdsRange h]

theorem withLiteral_of_literal? {n : Fin syscallRegisterCount} {text : Text}
    (h : m.program.literal? (m.arg n) = some text) (next : Text → Reply) :
    withLiteral m n next = next text := by
  simp only [withLiteral, h]

/-- A line that the receiver takes is added to the output. -/
theorem println_of_sink (h : m.console.sink ≠ .full) (text : Text) :
    println m text =
      (.ok .proceed, { m with console.printed := m.console.printed.push text }) := by
  cases hsink : m.console.sink with
  | full => exact absurd hsink h
  | accepting | unflushable => simp only [println, Console.println, hsink]

end Service

end RegisterMachine
