import RegisterMachine.Assembly.Link
import RegisterMachine.CommandLine.Help
import RegisterMachine.CommandLine.Options
import RegisterMachine.Image.Basic
import RegisterMachine.Machine.Run
import RegisterMachine.Program.Listing
import RegisterMachine.Service.Standard
import RegisterMachine.Source.Loading

/-!
# Command line sessions

What one call of the command line does: it loads sources or an image, compiles, and then writes an
image, or runs the program. Everything outside is reached through a `Host`, so a session is a
function of what the host answers.
-/

namespace RegisterMachine

/-- What surrounds a session. -/
structure Host (m : Type → Type) where
  read : FileReader m
  contains : Text → m Bool
  write : Text → List UInt8 → m (Except String Unit)
  print : Text → m Unit
  /-- Writes to the standard error. -/
  report : Text → m Unit
  /-- Runs a machine to its end with the standard input and the clock of the host. -/
  execute : Registry → Machine → m (Except RuntimeError Ending × Machine)

inductive Failure where
  /-- The option for images is given, but not exactly one file. -/
  | imageCount (got : Nat)
  | source (e : SourceError)
  | image (e : ImageError)
  | write (path : Text) (message : String)
  | setup (e : SetupError)
  | compile (e : CompileError)
  | runtime (e : RuntimeError)
  deriving DecidableEq, Repr

namespace Failure

def exitCode : Failure → Nat
  | compile _ => 2
  | runtime _ => 3
  | _ => 1

def message : Failure → String
  | imageCount got => s!"--image takes exactly one file, got {got}"
  | source e => e.message
  | image e => e.message
  | write path message => s!"cannot write '{String.ofList path}': {message}"
  | setup e => e.message
  | compile e => e.message
  | runtime e => e.message

end Failure

def CompilationUnit.summary (u : CompilationUnit) : Text :=
  u.path ++
    (s!": {u.instructionCount} instruction(s), {u.functions.symbols.length} function(s), " ++
      s!"{u.labels.symbols.length} label(s), {u.strings.texts.length} string(s)").toList

def Program.summary (p : Program) : Text :=
  (s!"{p.size} instruction(s), {p.functions.size} function(s), {p.labels.size} label(s), " ++
    s!"{p.strings.size} string(s)").toList

/-- The progress of a compilation: one message for each file that is collected, and one for the
linked program. -/
def compilationLog (files : List SourceFile) : List Text :=
  match expandMacros files with
  | .error _ => []
  | .ok expanded =>
    let (units, _) := CompilationUnit.collectPrefix (expanded.map (·.path)) {} expanded
    let collected := units.map fun u => "collected ".toList ++ u.summary
    match link expanded with
    | .error _ => collected
    | .ok p => collected ++ [s!"linked {expanded.length} file(s): ".toList ++ p.summary]

def Discipline.name : Discipline → String
  | .blocks => "Blocks"
  | .slots => "Slots"

namespace Session

variable {m : Type → Type} [Monad m]

/-- Where the core library is looked for. -/
def defaultManifest : Text :=
  "core/files.json".toList

def log (host : Host m) (o : Options) (level : Level) (text : Text) :
    ExceptT Failure m Unit :=
  if level.isShown o.verbosity then
    liftM <| host.report (s!"[{level.name}] ".toList ++ text ++ ['\n'])
  else pure ()

/-- Reports messages of the lowest level, which are made only if they are shown. -/
def debug (host : Host m) (o : Options) (texts : Unit → List Text) : ExceptT Failure m Unit :=
  if Level.debug.isShown o.verbosity then (texts ()).forM (log host o .debug) else pure ()

def loadServices (host : Host m) (o : Options) : ExceptT Failure m Registry := do
  match Registry.ofPlugins standardPlugins with
  | .error e => throw (.setup e)
  | .ok r =>
    debug host o fun _ => r.plugins.map fun name => s!"loaded syscall plugin '{name}'".toList
    return r

/-- The paths of the files to compile: those of the command line, then those of the core library. -/
def sourcePaths (host : Host m) (o : Options) : ExceptT Failure m (List Text) := do
  if o.noCore then return o.files
  let manifest ←
    match o.core with
    | some path => pure (some path)
    | none => do
      if ← host.contains defaultManifest then pure (some defaultManifest)
      else
        debug host o fun _ => ["no core library manifest at ".toList ++ defaultManifest]
        pure none
  let library ←
    match manifest with
    | none => pure []
    | some path => (readManifest host.read path).adapt Failure.source
  log host o .info s!"core library: {library.length} file(s)".toList
  return mergePaths o.files library

def readImage (host : Host m) (o : Options) : ExceptT Failure m Program := do
  let [path] := o.files | throw (.imageCount o.files.length)
  match ← host.read path with
  | .error message => throw (.source (.read path message))
  | .ok bytes =>
    match Image.decode bytes with
    | .error e => throw (.image e)
    | .ok p =>
      log host o .info ("loaded image ".toList ++ path ++ s!" ({p.size} instruction(s))".toList)
      return p

def readSources (host : Host m) (o : Options) : ExceptT Failure m (List SourceFile) := do
  let sources ← (loadSources host.read (← sourcePaths host o)).adapt Failure.source
  log host o .info s!"loaded {sources.length} source file(s)".toList
  return sources

def printExpanded (host : Host m) (sources : List SourceFile) : ExceptT Failure m Unit := do
  match expandMacros sources with
  | .error e => throw (.compile e)
  | .ok files =>
    files.forM fun f =>
      host.print (Text.unlines ["; ---- ".toList ++ f.path, Text.trimEnd f.text])

def compileSources (host : Host m) (o : Options) (sources : List SourceFile) :
    ExceptT Failure m Program := do
  debug host o fun _ => compilationLog sources
  match compile sources with
  | .error e => throw (.compile e)
  | .ok p =>
    log host o .info
      s!"linked {p.size} instruction(s), {p.strings.size} string(s)".toList
    return p

def writeImage (host : Host m) (o : Options) (path : Text) (p : Program) :
    ExceptT Failure m Unit := do
  let bytes := Image.encode p
  match ← host.write path bytes with
  | .error message => throw (.write path message)
  | .ok () =>
    log host o .info (s!"wrote {bytes.length} byte image to ".toList ++ path)

def showConsole (host : Host m) (o : Options) (c : Console) : ExceptT Failure m Unit := do
  host.print c.output
  debug host o fun _ => c.log.toList.map Event.text

def runProgram (host : Host m) (o : Options) (p : Program) : ExceptT Failure m Int32 := do
  if p.isEmpty then log host o .warn "program has no instructions".toList
  let registry ← loadServices host o
  let memory := o.config.memorySize
  let discipline := o.config.discipline.name
  log host o .info
    s!"running with {memory} byte(s) of memory, {discipline} allocator".toList
  let console : Console := { verbosity := o.verbosity }
  let (result, machine) ← host.execute registry (.start o.config p console)
  showConsole host o machine.console
  match result with
  | .error e => throw (.runtime e)
  | .ok ending => do
    debug host o fun _ =>
      ["stopped at pc ".toList ++ Numeral.padded 4 machine.pc ++
        s!", call depth {machine.calls.depth}".toList]
    match ending with
    | .finished => return 0
    | .exited status =>
      log host o .info s!"program exited with status {status.toInt}".toList
      return status

/-- Writes, lists and runs a program as the options ask. -/
def useProgram (host : Host m) (o : Options) (p : Program) : ExceptT Failure m Int32 := do
  match o.emit with
  | some path =>
    writeImage host o path p
    return 0
  | none =>
    if o.disasm then host.print p.reportText
    runProgram host o p

/-- Does what the options ask for and returns the status to exit with. -/
def body (host : Host m) (o : Options) : ExceptT Failure m Int32 := do
  if o.syscalls then
    host.print (← loadServices host o).listing
    return 0
  if o.files.isEmpty then
    host.print Help.summary.toList
    return 0
  if o.image then useProgram host o (← readImage host o)
  else
    let sources ← readSources host o
    if o.expanded then
      printExpanded host sources
      return 0
    useProgram host o (← compileSources host o sources)

/-- Runs a session and returns its exit code, a number below 256. -/
def run (host : Host m) (args : List Text) : m Nat := do
  match Request.ofArguments args with
  | .error e =>
    host.report
      s!"error: {e.message}\n\n{Help.usage}\nFor more information, try '--help'.\n".toList
    return 2
  | .ok .summary => host.print Help.summary.toList; return 0
  | .ok .help => host.print Help.full.toList; return 0
  | .ok .version => host.print Help.version.toList; return 0
  | .ok (.run o) =>
    match ← (body host o).run with
    | .ok status => return (status.toInt % 256).toNat
    | .error e =>
      host.report s!"Error: {e.message}\n".toList
      return e.exitCode

end Session

end RegisterMachine
