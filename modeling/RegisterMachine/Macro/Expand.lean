import RegisterMachine.Macro.Call

/-!
# Macro expansion

`MacroTable.ofFiles` collects the definitions of all files before any call is expanded, so a file
may call what a later file defines. `MacroTable.expandFile` then blanks out the definitions, drops
blank lines, and puts the expansion of each call in its place; every line that results remembers
the line of the file that it came from.
-/

namespace RegisterMachine

/-- The macros that are defined, in the order of their definitions. -/
abbrev MacroTable := List MacroDef

namespace MacroTable

def find? (table : MacroTable) (name : Text) : Option MacroDef :=
  List.find? (·.name == name) table

def call? (table : MacroTable) (line : Text) : Option (MacroDef × List Text) := do
  let (name, args) ← MacroCall.parse? line
  let d ← table.find? name
  return (d, MacroCall.arguments args)

/-- The lines that a call of `d` stands for. `chain` names the macros that are being expanded
around it, outermost first, and `budget` is how many more calls may be nested. A chain of different
macros is no longer than the table, so one call more than that repeats a name before the budget is
spent. -/
def expandCall (table : MacroTable) (budget : Nat) (chain : List Text) (d : MacroDef)
    (args : List Text) : Except CompileError.Cause (List Text) :=
  match budget with
  | 0 => .error (.circularMacro (chain ++ [d.name]))
  | budget + 1 =>
    if d.name ∈ chain then .error (.circularMacro (chain ++ [d.name]))
    else if args.length ≠ d.params.length then
      .error (.macroArity d.name d.params.length args.length)
    else do
      let parts ← (d.body.map (MacroDef.substitute (d.params.zip args))).mapM fun line =>
        match table.call? line with
        | some (inner, args) => expandCall table budget (chain ++ [d.name]) inner args
        | none => .ok [line]
      return parts.flatten

def expandLine (table : MacroTable) (line : Text) : Except CompileError.Cause (List Text) :=
  match table.call? line with
  | some (d, args) => table.expandCall (table.length + 1) [] d args
  | none => .ok [line]

def segmentsOf (f : SourceFile) : Except CompileError (List Segment) :=
  match segments f.path f.text with
  | .ok segs => .ok segs
  | .error name => .error (.inFile { stage := .expand, cause := .unterminatedMacro name } f.path)

/-- Adds a definition; a name that is taken is an error of the file that holds the new one. -/
def insert (table : MacroTable) (d : MacroDef) : Except CompileError MacroTable :=
  match table.find? d.name with
  | some first =>
    .error (.inFile { stage := .expand, cause := .duplicateMacro d.name first.file } d.file)
  | none => .ok (table ++ [d])

def ofFiles (files : List SourceFile) : Except CompileError MacroTable :=
  files.foldlM (fun table f => do
    let segs ← segmentsOf f
    (segs.filterMap Segment.definition?).foldlM insert table) []

def blankedText (segs : List Segment) : Text :=
  segs.flatMap Segment.blanked

/-- The lines that a file expands to, each with the number of the line it came from. -/
def expandLines (table : MacroTable) (path : Text) (lines : List (Nat × Text)) :
    Except CompileError (List (Nat × Text)) := do
  let parts ← lines.mapM fun (n, line) =>
    if (Text.trim line).isEmpty then .ok []
    else
      match table.expandLine line with
      | .ok ls => .ok (ls.map fun l => (n, l))
      | .error cause => .error ((CompileError.inFile { stage := .expand, cause } path).atLine n line)
  return parts.flatten

/-- A file without definitions, calls and blank lines. -/
def expandFile (table : MacroTable) (f : SourceFile) : Except CompileError SourceFile := do
  let segs ← segmentsOf f
  let blanked : SourceFile := { path := f.path, text := blankedText segs }
  let ls ← table.expandLines f.path blanked.numberedLines
  return { path := f.path, text := Text.unlines (ls.map (·.2)), origins := ls.map (·.1) }

end MacroTable

/-- Expands the macros of all files; one file results for each, in the same order. -/
def expandMacros (files : List SourceFile) : Except CompileError (List SourceFile) := do
  let table ← MacroTable.ofFiles files
  files.mapM table.expandFile

end RegisterMachine
