import RegisterMachine.Service.Basic

/-!
# Console and memory services

Printing and reading, the end of the program, the clock, and two helpers for memory. Arguments come
in the syscall registers from `S1` on; results go to `S0`, the number read from the input to `S1`.
-/

namespace RegisterMachine

/-- The start of a range of memory that a service works on. -/
def Machine.serviceRange (m : Machine) (address len : Int32) : Except ServiceError Nat :=
  match (Word.index? len).bind (m.range? address) with
  | some start => .ok start
  | none => .error (.memory address len)

namespace Service

/-- Continues with the string literal that an argument is the index of. -/
def withLiteral (m : Machine) (n : Fin syscallRegisterCount) (next : Text → Reply) : Reply :=
  match m.program.literal? (m.arg n) with
  | some text => next text
  | none => (.error (.badString (m.arg n)), m)

/-- Continues with the start of a range of memory. -/
def withRange (m : Machine) (address len : Int32) (next : Nat → Reply) : Reply :=
  match m.serviceRange address len with
  | .ok start => next start
  | .error e => (.error e, m)

def println (m : Machine) (text : Text) : Reply :=
  match m.console.println text with
  | .ok console => (.ok .proceed, { m with console })
  | .error message => (.error (.io message), m)

def printInt (m : Machine) : Reply :=
  println m (Numeral.ofInt (m.arg 1).toInt)

/-- Prints the bytes from an address up to the first zero or the end of memory. -/
def printBytes (m : Machine) : Reply :=
  withRange m (m.arg 1) 0 fun start =>
    println m (Utf8.decodeLossy (m.memory.untilZero start))

def exit (m : Machine) : Reply :=
  (.ok (.exit (m.arg 1)), m)

def printLiteral (m : Machine) : Reply :=
  withLiteral m 1 (println m)

/-- The integer on a line of input; zero if there is none. -/
def lineValue (line : Option Text) : Int32 :=
  match line.map fun s => Numeral.int32 (Text.trim s) with
  | some (.ok value) => value
  | _ => 0

def readInt (m : Machine) : Reply :=
  match m.console.readLine with
  | (.ok line, console) => (.ok .proceed, { m with console }.setArg 1 (lineValue line))
  | (.error message, console) => (.error (.io message), { m with console })

/-- Floats are printed without an exponent, and whole ones without a point. -/
def floatLayout : Decimal.Layout where
  pointZero := false
  plusSign := false
  bounds := none

def printFloat (m : Machine) : Reply :=
  println m (Single.text floatLayout (m.arg 1).toUInt32)

/-- Copies `S3` bytes from address `S1` to address `S2`. -/
def copyMemory (m : Machine) : Reply :=
  withRange m (m.arg 1) (m.arg 3) fun src =>
    withRange m (m.arg 2) (m.arg 3) fun dst =>
      (.ok .proceed, { m with memory := m.memory.copy src dst (m.arg 3).toInt.toNat })

/-- Stores the string literal `S1` and a zero byte at address `S2`; the result is its length in
bytes. -/
def storeLiteral (m : Machine) : Reply :=
  withLiteral m 1 fun text =>
    let bytes := Utf8.encode text
    if 0x80000000 ≤ bytes.length + 1 then (.error (.memory (m.arg 2) Int32.maxValue), m)
    else
      withRange m (m.arg 2) (Int32.ofNat (bytes.length + 1)) fun start =>
        (.ok .proceed,
          { m with memory := m.memory.write start (bytes ++ [0]) }.setArg 0
            (Int32.ofNat bytes.length))

def time (m : Machine) : Reply :=
  let (seconds, console) := m.console.readClock
  (.ok .proceed, { m with console }.setArg 0 (Int32.ofNat seconds))

end Service

def corePlugin : Plugin where
  name := "core"
  services :=
    [⟨1, "print_int", Service.printInt⟩, ⟨2, "print_cstr", Service.printBytes⟩,
      ⟨3, "exit", Service.exit⟩, ⟨4, "print_literal", Service.printLiteral⟩,
      ⟨5, "read_int", Service.readInt⟩, ⟨6, "print_float", Service.printFloat⟩,
      ⟨13, "mem_copy", Service.copyMemory⟩, ⟨14, "store_literal", Service.storeLiteral⟩,
      ⟨15, "time", Service.time⟩]

end RegisterMachine
