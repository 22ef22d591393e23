import RegisterMachine.Numeric.Integer
import RegisterMachine.Text.Unshown

/-!
# Escaped literals

The form in which a listing shows a string: in double quotes, on one line, with every character
visible. Quotes, backslashes and the four common control characters have a letter; every other
character without a glyph of its own is written by its code point.
-/

namespace RegisterMachine.Text

/-- The letter that stands for a character behind a backslash. -/
def escapeLetter? : Char → Option Char
  | '\x00' => some '0'
  | '\t' => some 't'
  | '\r' => some 'r'
  | '\n' => some 'n'
  | '"' => some '"'
  | '\\' => some '\\'
  | _ => none

def escapeChar (c : Char) : Text :=
  match escapeLetter? c with
  | some l => ['\\', l]
  | none =>
    if isUnshown c then '\\' :: 'u' :: '{' :: (Numeral.hex c.toNat ++ ['}'])
    else [c]

/-- The text in double quotes, in visible form. -/
def escaped (s : Text) : Text :=
  '"' :: (s.flatMap escapeChar ++ ['"'])

end RegisterMachine.Text
