import RegisterMachine.Text.Basic

/-!
# Source files

A source file is addressed by its path, which other files use to import it.
-/

namespace RegisterMachine

structure SourceFile where
  path : Text
  text : Text
  /-- For each line of `text`, the line of the file as it was written. Empty when `text` is the
  file as it was written. -/
  origins : List Nat := []
  deriving DecidableEq, Repr

namespace SourceFile

/-- The line, as the file was written, behind line `line` of the text. Lines count from one. -/
def origin (f : SourceFile) (line : Nat) : Nat :=
  match line with
  | 0 => 0
  | i + 1 => f.origins.getD i (i + 1)

def numberedLines (f : SourceFile) : List (Nat × Text) :=
  ((Text.lines f.text).zipIdx 1).map fun l => (l.2, l.1)

end SourceFile

/-- The paths of the first list, then those of the second that are not yet there. -/
def mergePaths (user library : List Text) : List Text :=
  library.foldl (fun merged path => if path ∈ merged then merged else merged ++ [path]) user

end RegisterMachine
