import RegisterMachine.Source.File
import RegisterMachine.Text.Quoted

/-!
# Lines of assembly

What a line of expanded source declares. Both passes of the assembler read lines through
`Line.classify`, so they agree on which lines are instructions.
-/

namespace RegisterMachine

inductive Line where
  | blank
  | comment
  | importOf (path : Text)
  | function (name : Text)
  | label (name : Text)
  /-- An instruction, without its comment and without white space at its ends. -/
  | instruction (code : Text)
  deriving DecidableEq, Repr

namespace Line

/-- What follows a keyword and the white space behind it. -/
def afterKeyword? (keyword code : Text) : Option Text := do
  let c :: s ← Text.dropPrefix? keyword code | none
  guard (Text.isBlank c)
  return Text.trim (c :: s)

def importKeyword : Text := ['i', 'm', 'p', 'o', 'r', 't']

def functionKeyword : Text := ['f', 'u', 'n', 'c', 't', 'i', 'o', 'n']

def ofCode (code : Text) : Line :=
  match afterKeyword? importKeyword code with
  | some path => .importOf path
  | none =>
    match Text.dropLast? ':' code with
    | none => .instruction code
    | some decl =>
      match afterKeyword? functionKeyword decl with
      | some name => .function name
      | none => .label (Text.trim decl)

/-- Reads a line: it is blank, a comment, an import, a declaration, or else an instruction. -/
def classify (raw : Text) : Line :=
  match Text.trim raw with
  | [] => .blank
  | ';' :: _ => .comment
  | c :: s => ofCode (Text.trimEnd (Text.stripComment (c :: s)))

def code? : Line → Option Text
  | .instruction code => some code
  | _ => none

end Line

structure CodeLine where
  /-- The number of the line, counted from one. -/
  number : Nat
  raw : Text
  code : Text
  deriving DecidableEq, Repr

def SourceFile.codeLines (f : SourceFile) : List CodeLine :=
  f.numberedLines.filterMap fun (number, raw) =>
    (Line.classify raw).code?.map fun code => ⟨number, raw, code⟩

/-- Whether an instruction carries a literal: its mnemonic is the one of a string load. -/
def isStringLoad (code : Text) : Bool :=
  match Text.words Text.isBlank code with
  | [] => false
  | m :: _ => Text.foldCase m == ['l', 'd', 's', 't', 'r']

/-- Whether a text may be declared as a name: ASCII letters, digits, underscores and points, not
starting with a digit. -/
def isSymbolName : Text → Bool
  | [] => false
  | c :: s =>
    (c.isAlpha || c == '_' || c == '.') && s.all fun c => c.isAlphanum || c == '_' || c == '.'

end RegisterMachine
