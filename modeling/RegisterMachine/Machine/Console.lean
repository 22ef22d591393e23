import RegisterMachine.Log
import RegisterMachine.Program.Basic
import RegisterMachine.Text.Utf8

/-!
# The console of a machine

What a machine exchanges with its surroundings: bytes to read, lines that it prints, a clock, and a
log of what it does. Nothing here feeds back into execution except the input and the clock.
-/

namespace RegisterMachine

inductive Event where
  /-- The instruction at `pc` is about to be executed. -/
  | executing (pc : Nat) (i : Instruction)
  | calling (id : Int32) (plugin name : String)
  | freed (handle : Int32) (live : Nat)
  | pushedFrame (depth : Nat)
  | poppedFrame (depth : Nat)
  deriving DecidableEq, Repr

def Event.text : Event → Text
  | executing pc i => Numeral.padded 4 pc ++ ' ' :: i.text
  | calling id plugin name => s!"syscall {id.toInt} ({plugin}.{name})".toList
  | freed handle live => s!"freed handle {handle.toInt}, {live} allocation(s) live".toList
  | pushedFrame depth => s!"pushed variable frame, depth {depth}".toList
  | poppedFrame depth => s!"popped variable frame, depth {depth}".toList

inductive Sink where
  | accepting
  | full
  /-- Everything can be written, but not be flushed. -/
  | unflushable
  deriving DecidableEq, Repr

structure Console where
  input : List UInt8 := []
  /-- The lines that are printed, without their line feeds. -/
  printed : Array Text := #[]
  sink : Sink := .accepting
  /-- What the clock shows when it is read next, in seconds. -/
  clock : Nat := 0
  /-- What it shows at the readings after that one; then it stands still. -/
  laterClocks : List Nat := []
  verbosity : Nat := 0
  log : Array Event := #[]

namespace Console

def output (c : Console) : Text :=
  Text.unlines c.printed.toList

def println (c : Console) (text : Text) : Except String Console :=
  match c.sink with
  | .full => .error "sink is full"
  | _ => .ok { c with printed := c.printed.push text }

def flush (c : Console) : Except String Unit :=
  match c.sink with
  | .unflushable => .error "sink is closed"
  | _ => .ok ()

/-- Reads the next line, without the line feed and the carriage returns at its end. There is none at
the end of the input. A line that is not valid UTF-8 is an error, and is passed over. -/
def readLine (c : Console) : Except String (Option Text) × Console :=
  match c.input with
  | [] => (.ok none, c)
  | b :: bs =>
    let line := (b :: bs).takeWhile (· ≠ 10)
    let c := { c with input := ((b :: bs).dropWhile (· ≠ 10)).drop 1 }
    match Utf8.decode? line with
    | some s => (.ok (some (Text.dropEndWhile (· == '\r') s)), c)
    | none => (.error "stream did not contain valid UTF-8", c)

def readClock (c : Console) : Nat × Console :=
  match c.laterClocks with
  | [] => (c.clock, c)
  | clock :: laterClocks => (c.clock, { c with clock, laterClocks })

/-- Records an event if events are shown at the verbosity of the console. -/
def note (c : Console) (event : Unit → Event) : Console :=
  if Level.debug.isShown c.verbosity then { c with log := c.log.push (event ()) } else c

end Console

end RegisterMachine
