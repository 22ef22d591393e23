import RegisterMachine.Macro.Definition
import RegisterMachine.Text.Quoted

/-!
# Macro calls

A call is a whole line `NAME(ARGUMENTS)`. Arguments are separated by the commas outside quotes and
outside inner parentheses. Expanding a body line puts the arguments in the place of the parameters,
all at once: what comes out of an argument is not looked at again.
-/

namespace RegisterMachine

namespace MacroCall

/-- The text up to the parenthesis that closes the one already open, if it is the last character.
`depth` counts the inner parentheses that are still open. -/
def closing? (depth : Nat) (inLiteral : Bool) : Text → Option Text
  | [] => none
  | c :: s =>
    let more (r : Option Text) := r.map (c :: ·)
    if c = '"' then more (closing? depth (!inLiteral) s)
    else if inLiteral then more (closing? depth true s)
    else if c = '(' then more (closing? (depth + 1) false s)
    else if c = ')' then
      match depth with
      | 0 => if s.isEmpty then some [] else none
      | depth + 1 => more (closing? depth false s)
    else more (closing? depth false s)

def parse? (line : Text) : Option (Text × Text) := do
  let (name, s) ← Text.ident? (Text.trim (Text.stripComment line))
  let '(' :: s := s.dropWhile Text.isAsciiBlank | none
  let args ← closing? 0 false s
  return (name, args)

/-- The pieces between the commas at depth zero outside quotes. The depth may be negative, after
more closing than opening parentheses. -/
def pieces (depth : Int) (inLiteral : Bool) : Text → List Text
  | [] => [[]]
  | c :: s =>
    if c = '"' then Text.consHead c (pieces depth (!inLiteral) s)
    else if inLiteral then Text.consHead c (pieces depth true s)
    else if c = '(' then Text.consHead c (pieces (depth + 1) false s)
    else if c = ')' then Text.consHead c (pieces (depth - 1) false s)
    else if c = ',' ∧ depth = 0 then [] :: pieces depth false s
    else Text.consHead c (pieces depth false s)

def arguments (args : Text) : List Text :=
  if (Text.trim args).isEmpty then [] else (pieces 0 false args).map Text.trim

end MacroCall

namespace MacroDef

/-- What a word of a body line stands for: the argument of the first parameter of that name, or
itself. Where there is no word, nothing is put in, even if a parameter has no name. -/
def resolve (bindings : List (Text × Text)) : Text → Text
  | [] => []
  | c :: word => (bindings.lookup (c :: word)).getD (c :: word)

/-- Replaces every word of a line that is a parameter. A word is a longest run of ASCII letters,
digits and underscores; literals are left as they are, up to the end of the line if one is not
closed. -/
def substitute (bindings : List (Text × Text)) (line : Text) : Text :=
  go false [] line
where
  go (inLiteral : Bool) (word : Text) : Text → Text
    | [] => resolve bindings word.reverse
    | c :: s =>
      if inLiteral then c :: go (c != '"') [] s
      else if Text.isIdentRest c then go false (c :: word) s
      else resolve bindings word.reverse ++ c :: go (c == '"') [] s

end MacroDef

end RegisterMachine
