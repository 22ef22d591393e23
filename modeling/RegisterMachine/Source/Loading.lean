import RegisterMachine.Source.File
import RegisterMachine.Source.Manifest

/-!
# Loading of sources

Reading of source files and manifests. How a file is read is a parameter: a function from a path to
its bytes or a message, in any monad.
-/

namespace RegisterMachine

/-- Why sources cannot be loaded. -/
inductive SourceError where
  | read (path : Text) (message : String)
  | manifest (path : Text) (message : String)
  deriving DecidableEq, Repr

def SourceError.message : SourceError → String
  | .read path message => s!"cannot read '{String.ofList path}': {message}"
  | .manifest path message =>
    s!"invalid core library manifest '{String.ofList path}': {message}"

/-- How the bytes of files are read. -/
abbrev FileReader (m : Type → Type) := Text → m (Except String (List UInt8))

variable {m : Type → Type} [Monad m]

def readText (reader : FileReader m) (path : Text) : ExceptT SourceError m Text := do
  match ← reader path with
  | .error message => throw (.read path message)
  | .ok bytes =>
    match Utf8.decode? bytes with
    | some text => return text
    | none => throw (.read path "stream did not contain valid UTF-8")

/-- Reads source files in the given order. -/
def loadSources (reader : FileReader m) (paths : List Text) :
    ExceptT SourceError m (List SourceFile) :=
  paths.mapM fun path => do return { path := path, text := ← readText reader path }

def readManifest (reader : FileReader m) (path : Text) : ExceptT SourceError m (List Text) := do
  match Manifest.read (← readText reader path) with
  | .ok paths => return paths
  | .error message => throw (.manifest path message)

end RegisterMachine
