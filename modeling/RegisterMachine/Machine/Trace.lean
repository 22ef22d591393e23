import RegisterMachine.Machine.Run

/-!
# Traces

A trace records what every step of a program does to the registers, the program counter and the call
depth.
-/

namespace RegisterMachine

structure StepRecord where
  pcBefore : Nat
  pcAfter : Nat
  depthAfter : Nat
  /-- The registers that changed, with their new values. -/
  changed : List (Operand × Int32)
  deriving DecidableEq, Repr

inductive TraceEnd where
  | limit
  | exited (status : Int32)
  | failed (e : RuntimeError)
  deriving DecidableEq, Repr

namespace Machine

/-- The registers with different values in two machines, with the value in the second. -/
def changedRegisters (before after : Machine) : List (Operand × Int32) :=
  let general := (before.registers.toList.zip after.registers.toList).zipIdx.filterMap
    fun ((a, b), n) => if a = b then none else some (.register (UInt8.ofNat n), b)
  let syscall := (before.syscallRegisters.toList.zip after.syscallRegisters.toList).zipIdx.filterMap
    fun ((a, b), n) => if a = b then none else some (.syscallRegister (UInt8.ofNat n), b)
  general ++ syscall

def stepRecord (before after : Machine) : StepRecord where
  pcBefore := before.pc
  pcAfter := after.pc
  depthAfter := after.calls.depth
  changed := changedRegisters before after

/-- Takes at most as many steps as the first argument says, whether or not the program counter is at
an instruction, and records those after which execution goes on. -/
def trace (r : Registry) : Nat → Machine → List StepRecord × TraceEnd × Machine
  | 0, m => ([], .limit, m)
  | bound + 1, m =>
    match m.step r with
    | (.ok none, after) =>
      let (records, result) := trace r bound after
      (stepRecord m after :: records, result)
    | (.ok (some status), after) => ([], .exited status, after)
    | (.error e, after) => ([], .failed e, after)

end Machine

end RegisterMachine
