import RegisterMachine.Machine.Step

/-!
# Runs

A run takes steps until the program counter leaves the program, the program exits, or a step fails.
As a program need not end, a run has a bound on its steps; `Machine.advance` returns no result when
the bound is reached first, and the machine from which the run goes on.
-/

namespace RegisterMachine

inductive Ending where
  /-- The program counter left the program. -/
  | finished
  | exited (status : Int32)
  deriving DecidableEq, Repr

namespace Machine

def isRunning (m : Machine) : Bool :=
  m.pc < m.program.size

/-- The number of the service that the next instruction calls, if it calls one. -/
def nextService? (m : Machine) : Option Int32 :=
  match m.program.instructions[m.pc]? with
  | some i => if i.opcode = .syscall then some (m.arg 0) else none
  | none => none

/-- Takes at most as many steps as the first argument says. -/
def advance (r : Registry) : Nat → Machine → Option (Except RuntimeError Ending) × Machine
  | 0, m => (none, m)
  | bound + 1, m =>
    if m.isRunning then
      match m.step r with
      | (.ok none, m) => advance r bound m
      | (.ok (some status), m) => (some (.ok (.exited status)), m)
      | (.error e, m) => (some (.error e), m)
    else (some (.ok .finished), m)

/-- The result of a run once its output is handed over: if that fails, so does a run that went well
until then. -/
def close (m : Machine) (result : Except RuntimeError Ending) : Except RuntimeError Ending := do
  let ending ← result
  match m.console.flush with
  | .ok () => return ending
  | .error message => throw { fault := .output message }

def run (r : Registry) (bound : Nat) (m : Machine) :
    Option (Except RuntimeError Ending) × Machine :=
  let (result, m) := advance r bound m
  (result.map m.close, m)

end Machine

end RegisterMachine
