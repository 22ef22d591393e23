import RegisterMachine.Machine.Basic

/-!
# Command line options

Arguments are read from left to right. Options may stand before, between and behind the files; a
value follows its option as the next argument or behind an equals sign. A request for help or for
the version is answered as soon as it is read, and so is a mistake.
-/

namespace RegisterMachine

/-- What the arguments ask for. -/
structure Options where
  /-- Source files in link order, or one program image. -/
  files : List Text := []
  /-- Where to write the image of the linked program instead of running it. -/
  emit : Option Text := none
  image : Bool := false
  /-- The manifest of the core library. -/
  core : Option Text := none
  noCore : Bool := false
  memory : Option Nat := none
  callDepth : Option Nat := none
  allocator : Option Discipline := none
  expanded : Bool := false
  disasm : Bool := false
  syscalls : Bool := false
  verbosity : Nat := 0
  deriving DecidableEq, Repr

namespace Options

def config (o : Options) : Config :=
  let standard : Config := {}
  { memorySize := o.memory.getD standard.memorySize
    callDepth := o.callDepth.getD standard.callDepth
    discipline := o.allocator.getD standard.discipline }

end Options

inductive Request where
  | run (o : Options)
  | summary
  | help
  | version
  deriving DecidableEq, Repr

inductive UsageError where
  | unknownArgument (arg : String)
  | missingValue (option : String)
  | unexpectedValue (value option : String)
  | invalidValue (value option reason : String)
  | repeated (option : String)
  | conflict (option other : String)
  deriving DecidableEq, Repr

def UsageError.message : UsageError → String
  | .unknownArgument arg => s!"unexpected argument '{arg}' found"
  | .missingValue option => s!"a value is required for '{option}' but none was supplied"
  | .unexpectedValue value option =>
    s!"unexpected value '{value}' for '{option}' found; no more were expected"
  | .invalidValue value option reason => s!"invalid value '{value}' for '{option}': {reason}"
  | .repeated option => s!"the argument '{option}' cannot be used multiple times"
  | .conflict option other => s!"the argument '{option}' cannot be used with '{other}'"

namespace Options

/-- An option without a value: its name, whether it is set, and how to set it. -/
structure Flag where
  name : String
  isSet : Options → Bool
  set : Options → Options

def flags : List Flag :=
  [⟨"--image", Options.image, fun o => { o with image := true }⟩,
    ⟨"--no-core", Options.noCore, fun o => { o with noCore := true }⟩,
    ⟨"--expanded", Options.expanded, fun o => { o with expanded := true }⟩,
    ⟨"--disasm", Options.disasm, fun o => { o with disasm := true }⟩,
    ⟨"--syscalls", Options.syscalls, fun o => { o with syscalls := true }⟩]

/-- An option with a value: its name, how the value is called, whether it is set, and how to set it
or why a value is refused. -/
structure Setting where
  name : String
  placeholder : String
  isSet : Options → Bool
  set : Text → Options → Except String Options

def Setting.usage (s : Setting) : String :=
  s!"{s.name} <{s.placeholder}>"

/-- Reads a number of bytes or calls. -/
def number (value : Text) : Except String Nat :=
  match Numeral.unsigned 10 0xFFFFFFFFFFFFFFFF value with
  | .ok n => .ok n
  | .error e => .error e.message

def discipline (value : Text) : Except String Discipline :=
  if value = "blocks".toList then .ok .blocks
  else if value = "slots".toList then .ok .slots
  else .error "[possible values: blocks, slots]"

def path (value : Text) : Except String Text :=
  if value.isEmpty then .error "a value is required" else .ok value

def settings : List Setting :=
  [⟨"--emit", "PATH", fun o => o.emit.isSome,
      fun v o => do return { o with emit := some (← path v) }⟩,
    ⟨"--core", "MANIFEST", fun o => o.core.isSome,
      fun v o => do return { o with core := some (← path v) }⟩,
    ⟨"--memory", "MEMORY", fun o => o.memory.isSome,
      fun v o => do return { o with memory := some (← number v) }⟩,
    ⟨"--call-depth", "CALL_DEPTH", fun o => o.callDepth.isSome,
      fun v o => do return { o with callDepth := some (← number v) }⟩,
    ⟨"--allocator", "ALLOCATOR", fun o => o.allocator.isSome,
      fun v o => do return { o with allocator := some (← discipline v) }⟩]

def applySetting (s : Setting) (value : Text) (o : Options) : Except UsageError Options :=
  if s.isSet o then .error (.repeated s.usage)
  else
    match s.set value o with
    | .ok o => .ok o
    | .error reason => .error (.invalidValue (String.ofList value) s.usage reason)

/-- The result of reading one argument: the options, or a request that is answered at once. -/
abbrev Reading := Except UsageError (Options ⊕ Request)

def readLetters (o : Options) : Text → Reading
  | [] => .ok (.inl o)
  | 'v' :: s => readLetters { o with verbosity := o.verbosity + 1 } s
  | 'h' :: _ => .ok (.inr .summary)
  | 'V' :: _ => .ok (.inr .version)
  | c :: _ => .error (.unknownArgument (String.ofList ['-', c]))

/-- Reads an argument with two dashes that has no value of its own, if there is such an option. -/
def readFlag? (o : Options) (name : String) : Option Reading :=
  if name = "--help" then some (.ok (.inr .help))
  else if name = "--version" then some (.ok (.inr .version))
  else if name = "--verbose" then some (.ok (.inl { o with verbosity := o.verbosity + 1 }))
  else
    (flags.find? (·.name == name)).map fun f =>
      if f.isSet o then .error (.repeated f.name) else .ok (.inl (f.set o))

/-- Splits an argument at its first equals sign. -/
def splitValue (arg : Text) : String × Option Text :=
  match Text.cut? '=' arg with
  | some (name, value) => (String.ofList name, some value)
  | none => (String.ofList arg, none)

/-- Refuses options that exclude each other. -/
def check (o : Options) : Except UsageError Request :=
  if o.noCore && o.core.isSome then
    .error (.conflict "--no-core" "--core <MANIFEST>")
  else .ok (.run o)

def read (o : Options) : List Text → Except UsageError Request
  | [] => check o
  | arg :: args =>
    match arg with
    | ['-', '-'] => check { o with files := o.files ++ args }
    | '-' :: '-' :: _ =>
      let (name, value) := splitValue arg
      match settings.find? (·.name == name) with
      | some s =>
        match value, args with
        | some value, args =>
          match applySetting s value o with
          | .ok o => read o args
          | .error e => .error e
        | none, [] => .error (.missingValue s.usage)
        | none, value :: args =>
          if "-".toList.isPrefixOf value && value.length != 1 then
            .error (.missingValue s.usage)
          else
            match applySetting s value o with
            | .ok o => read o args
            | .error e => .error e
      | none =>
        match readFlag? o name, value with
        | none, _ => .error (.unknownArgument name)
        | some _, some value => .error (.unexpectedValue (String.ofList value) name)
        | some (.ok (.inl o)), none => read o args
        | some (.ok (.inr request)), none => .ok request
        | some (.error e), none => .error e
    | '-' :: c :: s =>
      match readLetters o (c :: s) with
      | .ok (.inl o) => read o args
      | .ok (.inr request) => .ok request
      | .error e => .error e
    | file => read { o with files := o.files ++ [file] } args

end Options

def Request.ofArguments (args : List Text) : Except UsageError Request :=
  Options.read {} args

end RegisterMachine
