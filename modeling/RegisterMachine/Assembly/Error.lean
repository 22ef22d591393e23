import RegisterMachine.Program.Basic

/-!
# Compile errors

A compile error is a cause together with the pass that found it and, as far as it is known, the
place in the source. The wording of every cause is in `CompileError.Cause.message`.
-/

namespace RegisterMachine

inductive Stage where
  | expand
  | collect
  | encode
  | link
  deriving DecidableEq, Repr

def Stage.name : Stage → String
  | expand => "macro"
  | collect => "collect"
  | encode => "encode"
  | link => "link"

inductive CompileError.Cause where
  /-- A macro is defined again; `firstFile` holds the first definition. -/
  | duplicateMacro (name firstFile : Text)
  | circularMacro (chain : List Text)
  | macroArity (name : Text) (expected got : Nat)
  | unterminatedMacro (name : Text)
  /-- A name is declared twice, the second time in `other` if that is another file. -/
  | duplicateSymbol (kind : SymbolKind) (name : Text) (other : Option Text)
  | invalidSymbolName (kind : SymbolKind) (name : Text)
  | unknownImport (path : Text)
  | selfImport (path : Text)
  | unknownMnemonic (mnemonic : Text)
  | unresolvedSymbol (kind : SymbolKind) (name : Text)
  | malformedOperand (token : Text) (reason : String)
  | operandCount (mnemonic : Text) (expected got : Nat)
  | malformedString
  /-- A line that loads a string has no literal in the string table. -/
  | missingString (text : Option Text)
  /-- Two passes disagree. -/
  | internal (message : String)
  deriving DecidableEq, Repr

structure CompileError where
  stage : Stage
  cause : CompileError.Cause
  file : Option Text := none
  line : Option Nat := none
  /-- The line of the source, without white space at its ends. -/
  source : Option Text := none
  deriving DecidableEq, Repr

namespace CompileError

def inFile (e : CompileError) (file : Text) : CompileError :=
  { e with file := some file }

def atLine (e : CompileError) (line : Nat) (source : Text) : CompileError :=
  { e with line := some line, source := some (Text.trim source) }

def Cause.message : Cause → String
  | duplicateMacro name firstFile =>
    s!"duplicate macro '{String.ofList name}' (already defined in {String.ofList firstFile})"
  | circularMacro chain =>
    "circular macro reference: " ++ String.ofList (Text.join [' ', '-', '>', ' '] chain)
  | macroArity name expected got =>
    s!"macro '{String.ofList name}' expects {expected} argument(s), got {got}"
  | unterminatedMacro name =>
    let brace := '}'
    s!"macro '{String.ofList name}' has no closing '{brace}'"
  | duplicateSymbol kind name other =>
    s!"duplicate {kind.name} '{String.ofList name}'" ++
      match other with
      | some file => s!" (also declared in {String.ofList file})"
      | none => ""
  | invalidSymbolName kind name => s!"invalid {kind.name} name '{String.ofList name}'"
  | unknownImport path => s!"no source file with path '{String.ofList path}'"
  | selfImport path => s!"'{String.ofList path}' imports itself"
  | unknownMnemonic m => s!"unknown mnemonic '{String.ofList m}'"
  | unresolvedSymbol kind name =>
    s!"unresolved symbol: {kind.name} '{String.ofList name}' not found"
  | malformedOperand token reason => s!"malformed operand '{String.ofList token}': {reason}"
  | operandCount m expected got =>
    s!"'{String.ofList m}' takes {expected} operand(s), got {got}"
  | malformedString => "malformed or unterminated string literal"
  | missingString (some text) =>
    s!"string \"{String.ofList text}\" not found in the string table"
  | missingString none => "no string literal recorded for this line"
  | internal message => "internal error: " ++ message

/-- The full report: the pass, the place, the cause, and the line of the source. -/
def message (e : CompileError) : String :=
  let place :=
    match e.file, e.line with
    | some file, some line => s!" {String.ofList file}:{line}"
    | some file, none => s!" {String.ofList file}"
    | none, some line => s!" line {line}"
    | none, none => ""
  let source :=
    match e.source with
    | some text => s!"\n  in: {String.ofList text}"
    | none => ""
  s!"compile error [{e.stage.name}]{place}: {e.cause.message}{source}"

end CompileError

end RegisterMachine
