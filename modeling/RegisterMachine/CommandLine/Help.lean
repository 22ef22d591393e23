/-!
# Help texts

What the command line prints about itself.
-/

namespace RegisterMachine.Help

def about : String :=
  "Assembler, linker and virtual machine for cinder assembly\n"

def usage : String :=
  "Usage: cinder [OPTIONS] [FILES]...\n"

def version : String :=
  "cinder 0.1.0\n"

/-- An option and what it does. -/
structure Entry where
  option : String
  summary : String
  standard : Option String := none
  /-- The possible values, each with what it means. -/
  values : List (String × String) := []

def argument : Entry where
  option := "[FILES]..."
  summary := "Source files in link order (or one program image with --image)"

def entries : List Entry :=
  [ { option := "      --emit <PATH>"
      summary := "Write the linked program image to this path instead of running it" },
    { option := "      --image"
      summary := "Treat the single input as a program image" },
    { option := "      --core <MANIFEST>"
      summary :=
        "Core library manifest, a JSON array of source paths [default: core/files.json]" },
    { option := "      --no-core"
      summary := "Do not link the core library" },
    { option := "      --memory <MEMORY>"
      summary := "VM memory size in bytes"
      standard := some "67108864" },
    { option := "      --call-depth <CALL_DEPTH>"
      summary := "Maximum call depth"
      standard := some "1024" },
    { option := "      --allocator <ALLOCATOR>"
      summary := "Allocator behind the memory syscalls"
      standard := some "blocks"
      values :=
        [("blocks", "Byte blocks; offsets and sizes count bytes"),
          ("slots", "Typed 32-bit slots; offsets and sizes count slots")] },
    { option := "      --expanded"
      summary := "Print the macro-expanded sources and stop" },
    { option := "      --disasm"
      summary := "Print the disassembled program before running it" },
    { option := "      --syscalls"
      summary := "Print the syscall id table and exit" },
    { option := "  -v, --verbose..."
      summary := "Raise log verbosity (-v info, -vv debug)" } ]

def versionEntry : Entry where
  option := "  -V, --version"
  summary := "Print version"

def pad (width : Nat) (s : String) : String :=
  s.pushn ' ' (width - s.length)

/-- An entry on one line, with its summary in a column. -/
def Entry.line (e : Entry) : String :=
  let standard :=
    match e.standard with
    | some value => s!" [default: {value}]"
    | none => ""
  let values :=
    if e.values.isEmpty then ""
    else
      let names := String.intercalate ", " (e.values.map (·.1))
      s!" [possible values: {names}]"
  pad 33 e.option ++ e.summary ++ standard ++ values ++ "\n"

/-- The help with one line for each option. -/
def summary : String :=
  let help : Entry :=
    { option := "  -h, --help", summary := "Print help (see more with '--help')" }
  about ++ "\n" ++ usage ++ "\nArguments:\n  " ++ argument.option ++ "  " ++ argument.summary ++
    "\n\nOptions:\n" ++ String.join ((entries ++ [help, versionEntry]).map Entry.line)

/-- An entry as a paragraph, with its summary and its values on lines of their own. -/
def Entry.paragraph (e : Entry) : String :=
  let margin := "          "
  let width := (e.values.map (·.1.length)).foldl max 0 + 1
  let values :=
    if e.values.isEmpty then ""
    else
      let rows := e.values.map fun (name, meaning) =>
        let column := pad width (name ++ ":")
        s!"{margin}- {column} {meaning}\n"
      s!"\n{margin}Possible values:\n" ++ String.join rows
  let standard :=
    match e.standard with
    | some value => s!"{margin}\n{margin}[default: {value}]\n"
    | none => ""
  e.option ++ "\n" ++ margin ++ e.summary ++ "\n" ++ values ++ standard

/-- The help with a paragraph for each option. -/
def full : String :=
  let help : Entry :=
    { option := "  -h, --help", summary := "Print help (see a summary with '-h')" }
  let file := { argument with option := "  " ++ argument.option }
  about ++ "\n" ++ usage ++ "\nArguments:\n" ++ file.paragraph ++ "\nOptions:\n" ++
    String.intercalate "\n" ((entries ++ [help, versionEntry]).map Entry.paragraph)

end RegisterMachine.Help
