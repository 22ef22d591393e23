import RegisterMachine.Assembly.Error
import RegisterMachine.Assembly.Line
import RegisterMachine.Assembly.SymbolTable
import RegisterMachine.Source.File

/-!
# Compilation units

A compilation unit is what the first pass learns about one expanded file: its imports, its symbols
with their addresses in the linked program, and its literals. The addresses count the instructions
of all files before it, so each file is collected at the offsets where the one before it ended.
-/

namespace RegisterMachine

/-- Totals over the files of a compilation. -/
structure Offsets where
  instruction : Nat := 0
  function : Nat := 0
  label : Nat := 0
  string : Nat := 0
  deriving DecidableEq, Repr

/-- The symbols of one file. -/
structure CompilationUnit where
  path : Text
  /-- The totals of the files before it. -/
  base : Offsets
  imports : List Text := []
  functions : SymbolTable
  labels : SymbolTable
  strings : StringTable
  /-- The lines that load a string, by their number in the expanded text. -/
  stringLines : List (Nat × Text) := []
  instructionCount : Nat := 0
  deriving DecidableEq, Repr

namespace CompilationUnit

def empty (path : Text) (base : Offsets) : CompilationUnit where
  path := path
  base := base
  functions := { base := base.function }
  labels := { base := base.label }
  strings := { base := base.string }

def offsetsAfter (u : CompilationUnit) : Offsets where
  instruction := u.base.instruction + u.instructionCount
  function := u.base.function + u.functions.symbols.length
  label := u.base.label + u.labels.symbols.length
  string := u.base.string + u.strings.texts.length

def address (u : CompilationUnit) : Nat :=
  u.base.instruction + u.instructionCount

def symbols (u : CompilationUnit) : SymbolKind → List Symbol
  | .function => u.functions.symbols
  | .label => u.labels.symbols
  | .string => []

def find? (u : CompilationUnit) (kind : SymbolKind) (name : Text) : Option Symbol :=
  match kind with
  | .function => u.functions.find? name
  | .label => u.labels.find? name
  | .string => none

def declare (u : CompilationUnit) (kind : SymbolKind) (name : Text) :
    Except CompileError.Cause CompilationUnit :=
  if isSymbolName name then
    match kind with
    | .function =>
      match u.functions.declare? name u.address with
      | some t => .ok { u with functions := t }
      | none => .error (.duplicateSymbol kind name none)
    | _ =>
      match u.labels.declare? name u.address with
      | some t => .ok { u with labels := t }
      | none => .error (.duplicateSymbol kind name none)
  else .error (.invalidSymbolName kind name)

/-- Imports a file, which has to be another one of the files compiled together. -/
def addImport (paths : List Text) (u : CompilationUnit) (path : Text) :
    Except CompileError.Cause CompilationUnit :=
  if path = u.path then .error (.selfImport path)
  else if path ∈ paths then .ok { u with imports := u.imports ++ [path] }
  else .error (.unknownImport path)

/-- Counts an instruction, and keeps the literal and the line if it loads a string. -/
def addInstruction (u : CompilationUnit) (number : Nat) (raw code : Text) :
    Except CompileError.Cause CompilationUnit :=
  if isStringLoad code then
    match Text.quoted? code with
    | none => .error .malformedString
    | some literal =>
      .ok
        { u with
          strings := u.strings.intern literal
          stringLines := u.stringLines ++ [(number, raw)]
          instructionCount := u.instructionCount + 1 }
  else .ok { u with instructionCount := u.instructionCount + 1 }

/-- Takes in one line. -/
def addLine (paths : List Text) (u : CompilationUnit) (number : Nat) (raw : Text) :
    Except CompileError.Cause CompilationUnit :=
  match Line.classify raw with
  | .blank | .comment => .ok u
  | .importOf path => u.addImport paths path
  | .function name => u.declare .function name
  | .label name => u.declare .label name
  | .instruction code => u.addInstruction number raw code

def collectLine (paths : List Text) (f : SourceFile) (u : CompilationUnit) (line : Nat × Text) :
    Except CompileError CompilationUnit :=
  match u.addLine paths line.1 line.2 with
  | .ok u => .ok u
  | .error cause =>
    .error ((CompileError.inFile { stage := .collect, cause } f.path).atLine
      (f.origin line.1) line.2)

/-- Collects a file that starts at the given offsets. `paths` are the files compiled together. -/
def collect (paths : List Text) (base : Offsets) (f : SourceFile) :
    Except CompileError CompilationUnit :=
  f.numberedLines.foldlM (collectLine paths f) (empty f.path base)

/-- Collects a file at totals that all files share, and takes them past it. -/
def collectShared (paths : List Text) (f : SourceFile) :
    EStateM CompileError Offsets CompilationUnit := do
  let u ← f.numberedLines.foldlM (fun u line => MonadExcept.ofExcept (collectLine paths f u line))
    (empty f.path (← get))
  set u.offsetsAfter
  return u

/-- Collects files in order, each at the offsets where the one before it ends. Returns the units up
to the first file that fails, and the error if there is one. -/
def collectPrefix (paths : List Text) (base : Offsets) :
    List SourceFile → List CompilationUnit × Option CompileError
  | [] => ([], none)
  | f :: fs =>
    match collect paths base f with
    | .error e => ([], some e)
    | .ok u =>
      let (units, e) := collectPrefix paths u.offsetsAfter fs
      (u :: units, e)

def collectAll (files : List SourceFile) : Except CompileError (List CompilationUnit) :=
  match collectPrefix (files.map (·.path)) {} files with
  | (units, none) => .ok units
  | (_, some e) => .error e

end CompilationUnit

end RegisterMachine
