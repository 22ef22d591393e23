import RegisterMachine.Assembly.Encoding
import RegisterMachine.Macro.Expand

/-!
# Compilation

`compile` takes source files to a linked program: it expands macros, collects the symbols of every
file, refuses names that collide, encodes every file, and puts the tables of all files behind one
another. The addresses that the first pass gave out are positions in the linked program, so linking
moves nothing; `Link.fault?` confirms that.
-/

namespace RegisterMachine

namespace Link

/-- The code of one file. A difference to the number of instructions that the first pass counted is
an error of the assembler itself. -/
def unitCode (c : Collection) (i : Nat) (u : CompilationUnit) (f : SourceFile) :
    Except CompileError (List (Instruction × SourceLocation)) := do
  let code ← encodeUnit c i u f
  if code.length = u.instructionCount then return code
  else
    let path := String.ofList f.path
    throw
      (.inFile
        { stage := .link
          cause := .internal
            s!"{path} encoded {code.length} instruction(s) but collected {u.instructionCount}" }
        f.path)

def code (c : Collection) (files : List SourceFile) :
    Except CompileError (List (Instruction × SourceLocation)) := do
  let parts ← ((c.units.zip files).zipIdx).mapM fun ((u, f), i) => unitCode c i u f
  return parts.flatten

def program (units : List CompilationUnit) (code : List (Instruction × SourceLocation)) :
    Program where
  instructions := (code.map (·.1)).toArray
  functions := (units.flatMap (·.functions.symbols)).toArray
  labels := (units.flatMap (·.labels.symbols)).toArray
  strings := (units.flatMap (·.strings.texts)).toArray
  locations := (code.map (·.2)).toArray

/-- Whether an operand refers to something that the program has. The end of the program is a valid
code address. -/
def inRange (p : Program) : Operand → Bool
  | .target address => address.toNat ≤ p.size
  | .string index => index.toNat < p.strings.size
  | _ => true

/-- The error of an operand of the instruction at `pc` that refers to nothing. -/
def outOfRange (p : Program) (pc : Nat) (i : Instruction) (operand : Operand) : CompileError :=
  let text := String.ofList operand.text
  let whole := String.ofList i.text
  let e : CompileError :=
    { stage := .link, cause := .internal s!"operand {text} of '{whole}' is out of range" }
  match p.locations[pc]? with
  | none => e
  | some l => (e.inFile l.file).atLine l.line l.text

/-- The first inconsistency of a linked program that should have `expected` instructions. -/
def fault? (expected : Nat) (p : Program) : Option CompileError :=
  if p.size = expected then
    p.instructions.toList.zipIdx.findSome? fun (i, pc) =>
      (i.operands.find? fun operand => !inRange p operand).map (outOfRange p pc i)
  else
    some
      { stage := .link
        cause := .internal s!"linked {p.size} instruction(s), expected {expected}" }

end Link

def link (files : List SourceFile) : Except CompileError Program := do
  let units ← CompilationUnit.collectAll files
  let c := Collection.ofUnits units
  if let some e := visibleDuplicate? c.units c.graph then throw e
  let p := Link.program units (← Link.code c files)
  match Link.fault? (units.foldl (· + ·.instructionCount) 0) p with
  | some e => throw e
  | none => return p

/-- Compiles source files, given in link order. -/
def compile (files : List SourceFile) : Except CompileError Program := do
  link (← expandMacros files)

end RegisterMachine
