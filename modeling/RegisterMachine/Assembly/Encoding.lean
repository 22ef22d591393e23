import RegisterMachine.Assembly.ImportGraph

/-!
# Encoding

The second pass. Every line that the first pass counted becomes one instruction: its operands are
read, checked against the shape that the opcode asks for, and names are resolved to addresses in
the units that the line can see.
-/

namespace RegisterMachine

/-- What the first pass leaves for the second: the units and what each of them sees. -/
structure Collection where
  units : List CompilationUnit
  graph : ImportGraph
  deriving DecidableEq, Repr

def Collection.ofUnits (units : List CompilationUnit) : Collection where
  units := units
  graph := .build units

/-- The symbol that a name stands for in unit `i`: the one of the first visible unit that declares
the name. -/
def Collection.resolve? (c : Collection) (i : Nat) (kind : SymbolKind) (name : Text) :
    Option Symbol :=
  (c.graph.visibleFrom i).findSome? fun j => c.units[j]?.bind (·.find? kind name)

namespace Encoding

/-- The mnemonic and the operands of a line. White space and commas separate them alike. -/
def tokens (code : Text) : List Text :=
  Text.words (fun c => Text.isBlank c || c == ',') code

def readOperand (token : Text) : Except CompileError.Cause Operand :=
  match Operand.read token with
  | .ok operand => .ok operand
  | .error e => .error (.malformedOperand token e.message)

def isGeneral : Operand → Bool
  | .register _ => true
  | _ => false

def isRegister : Operand → Bool
  | .register _ | .syscallRegister _ => true
  | _ => false

/-- Refuses operands of a kind that the opcode does not take: memory is addressed through general
registers, only a move may write a syscall register, and nothing writes an immediate. -/
def checkPair (op : Opcode) (destToken : Text) (dest : Operand) (srcToken : Text) (src : Operand) :
    Except CompileError.Cause Unit :=
  match op with
  | .mov =>
    if isRegister dest then .ok ()
    else .error (.malformedOperand destToken "mov destination must be a register")
  | .load | .store =>
    let reason := s!"{String.ofList op.mnemonic} takes general registers only"
    if isGeneral dest = false then .error (.malformedOperand destToken reason)
    else if isGeneral src = false then .error (.malformedOperand srcToken reason)
    else .ok ()
  | _ =>
    if isGeneral dest then .ok ()
    else
      .error (.malformedOperand destToken
        s!"{String.ofList op.mnemonic} destination must be a general register")

def resolve (c : Collection) (i : Nat) (kind : SymbolKind) (name : Text) :
    Except CompileError.Cause Operand :=
  match c.resolve? i kind name with
  | some symbol => .ok (.target symbol.address)
  | none => .error (.unresolvedSymbol kind name)

def encodePair (op : Opcode) (destToken srcToken : Text) :
    Except CompileError.Cause (List Operand) := do
  let dest ← readOperand destToken
  let src ← readOperand srcToken
  checkPair op destToken dest srcToken src
  return [dest, src]

/-- The operands of a string load. The literal is the one that the first pass found on the line. -/
def encodeStringLoad (u : CompilationUnit) (number : Nat) (args : List Text) :
    Except CompileError.Cause (List Operand) :=
  match args with
  | [] => .error (.operandCount Opcode.ldstr.mnemonic 2 0)
  | token :: _ =>
    match Operand.read token with
    | .ok (.register n) =>
      match u.stringLines.lookup number with
      | none => .error (.missingString none)
      | some raw =>
        match Text.quoted? raw with
        | none => .error .malformedString
        | some literal =>
          match u.strings.index.lookup literal with
          | none => .error (.missingString (some literal))
          | some index => .ok [.register n, .string (UInt32.ofNat index)]
    | _ => .error (.malformedOperand token "ldstr destination must be a general register")

/-- The operands of an instruction with opcode `op` on line `number` of unit `i`, which is the unit
`u`. -/
def encodeOperands (c : Collection) (i : Nat) (u : CompilationUnit) (number : Nat) (op : Opcode)
    (args : List Text) : Except CompileError.Cause (List Operand) :=
  match op.shape, args with
  | .none, [] => .ok []
  | .label, [name] => (resolve c i .label name).map ([·])
  | .function, [name] => (resolve c i .function name).map ([·])
  | .stringLoad, args => encodeStringLoad u number args
  | .pair, [dest, src] => encodePair op dest src
  | _, args => .error (.operandCount op.mnemonic op.operandCount args.length)

def encodeLine (c : Collection) (i : Nat) (u : CompilationUnit) (number : Nat) (code : Text) :
    Except CompileError.Cause Instruction :=
  match tokens code with
  | [] => .error (.internal "empty instruction line")
  | mnemonic :: args =>
    match Opcode.ofMnemonic? mnemonic with
    | none => .error (.unknownMnemonic (Text.foldCase mnemonic))
    | some op => (encodeOperands c i u number op args).map (⟨op, ·⟩)

def encodeCodeLine (c : Collection) (i : Nat) (u : CompilationUnit) (f : SourceFile)
    (l : CodeLine) : Except CompileError (Instruction × SourceLocation) :=
  match encodeLine c i u l.number l.code with
  | .ok instruction => .ok (instruction, ⟨u.path, f.origin l.number, l.code⟩)
  | .error cause =>
    .error ((CompileError.inFile { stage := .encode, cause } u.path).atLine
      (f.origin l.number) l.raw)

end Encoding

def encodeUnit (c : Collection) (i : Nat) (u : CompilationUnit) (f : SourceFile) :
    Except CompileError (List (Instruction × SourceLocation)) :=
  f.codeLines.mapM (Encoding.encodeCodeLine c i u f)

end RegisterMachine
