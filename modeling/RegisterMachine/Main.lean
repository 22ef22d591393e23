import RegisterMachine.CommandLine.Session
import RegisterMachine.Source.FileTree
import Std.Time.DateTime.Timestamp

/-!
# The command line

The host of the command line: files, the standard streams and the clock of the operating system.
A machine is driven step by step, so that it reads a line of input only when a program asks for one
and its output appears at once.
-/

namespace RegisterMachine.Main

def osError? : IO.Error → Option (String × UInt32)
  | .alreadyExists _ code text | .interrupted _ code text | .noFileOrDirectory _ code text
  | .invalidArgument _ code text | .permissionDenied _ code text
  | .resourceExhausted _ code text | .inappropriateType _ code text
  | .noSuchThing _ code text => some (text, code)
  | .otherError code text | .resourceBusy code text | .resourceVanished code text
  | .unsupportedOperation code text | .hardwareFault code text
  | .unsatisfiedConstraints code text | .illegalOperation code text | .protocolError code text
  | .timeExpired code text => some (text, code)
  | .unexpectedEof | .userError _ => none

def errorMessage (e : IO.Error) : String :=
  match osError? e with
  | some (text, code) => s!"{text} (os error {code})"
  | none => e.toString

/-- The result of an action, or the message of its error. -/
def attempt {α : Type} (action : IO α) : IO (Except String α) := do
  try
    return .ok (← action)
  catch e => return .error (errorMessage e)

def readFile (path : Text) : IO (Except String (List UInt8)) := do
  if let some e := FilePath.refusal? path then return .error e.message
  attempt do return (← IO.FS.readBinFile (String.ofList path)).toList

def fileExists (path : Text) : IO Bool := do
  match ← attempt (IO.FS.Handle.mk (String.ofList path) .read) with
  | .ok _ => return true
  | .error _ => return false

def writeFile (path : Text) (bytes : List UInt8) : IO (Except String Unit) :=
  attempt (IO.FS.writeBinFile (String.ofList path) (ByteArray.mk bytes.toArray))

/-- Reads the bytes of a line from the standard input, with its line feed. -/
partial def readLine (stdin : IO.FS.Stream) (done : Array UInt8) : IO (List UInt8) := do
  let bytes ← stdin.read 1
  match bytes.toList with
  | [] => return done.toList
  | b :: _ => if b = 10 then return (done.push b).toList else readLine stdin (done.push b)

/-- Gives a machine the input and the time that its next instruction asks for. -/
def supply (machine : Machine) : IO Machine := do
  match machine.nextService? with
  | some 5 =>
    if machine.console.input.isEmpty then
      let input ← readLine (← IO.getStdin) #[]
      return { machine with console := { machine.console with input } }
    else return machine
  | some 15 =>
    let now ← Std.Time.Timestamp.now
    let clock := now.toSecondsSinceUnixEpoch.toInt.toNat
    return { machine with console := { machine.console with clock } }
  | _ => return machine

/-- Shows what a machine printed and recorded, and forgets it. -/
def drain (machine : Machine) : IO Machine := do
  if machine.console.printed.isEmpty && machine.console.log.isEmpty then return machine
  IO.print (String.ofList machine.console.output)
  for event in machine.console.log do
    let text := String.ofList event.text
    IO.eprintln s!"[{Level.debug.name}] {text}"
  return { machine with console := { machine.console with printed := #[], log := #[] } }

partial def execute (registry : Registry) (machine : Machine) :
    IO (Except RuntimeError Ending × Machine) := do
  let (result, machine) := Machine.advance registry 1 (← supply machine)
  let machine ← drain machine
  match result with
  | some result =>
    (← IO.getStdout).flush
    return (machine.close result, machine)
  | none => execute registry machine

/-- The operating system as a host. -/
def host : Host IO where
  read := readFile
  contains := fileExists
  write := writeFile
  print text := IO.print (String.ofList text)
  report text := IO.eprint (String.ofList text)
  execute := execute

end RegisterMachine.Main

def main (args : List String) : IO UInt32 := do
  let code ← RegisterMachine.Session.run RegisterMachine.Main.host (args.map String.toList)
  return UInt32.ofNat code
