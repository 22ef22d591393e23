import RegisterMachine.Text.Utf8

/-!
# File trees

Files that are kept as values. A tree holds files by the names on the way to them; the directories
are the ways to files, the root of the tree, and everything above it. Paths start at the root. They
are followed as a POSIX system follows them, with its limits on the length of names and paths.
-/

namespace RegisterMachine

inductive FileError where
  | notFound
  | notADirectory
  | isADirectory
  | nameTooLong
  | nulInName
  deriving DecidableEq, Repr

def FileError.message : FileError → String
  | .notFound => "No such file or directory (os error 2)"
  | .notADirectory => "Not a directory (os error 20)"
  | .isADirectory => "Is a directory (os error 21)"
  | .nameTooLong => "File name too long (os error 36)"
  | .nulInName => "file name contained an unexpected NUL byte"

/-- The names on the way from the root of a tree to a place. A step upwards has the name `..`. -/
abbrev Place := List Text

namespace Place

def up : Text := ['.', '.']

/-- The place above all others. -/
def top : Place := [['/']]

def isAbove (p : Place) : Bool :=
  p == top || p.all (· == up)

/-- The directory that holds a place. Nothing holds the top but itself. -/
def parent (p : Place) : Place :=
  if p == top then top
  else if p.isAbove then up :: p
  else p.dropLast

end Place

namespace FilePath

/-- The greatest number of bytes in a name. -/
def nameLimit : Nat := 255

/-- The greatest number of bytes in a path. -/
def limit : Nat := 4095

def start (path : Text) : Place :=
  if path.head? = some '/' then Place.top else []

/-- The names between the slashes of a path. An empty one asks for a directory, as `.` does. -/
def steps (path : Text) : List Text :=
  Text.pieces (· == '/') path

/-- The steps to a file that is created if there is none. With a slash at the end the file would be a
directory, so the last name is not looked at. -/
def stepsToWrite (path : Text) : List Text :=
  let path' := Text.dropEndWhile (· == '/') path
  if path' = path then steps path else (steps path').dropLast ++ [['.']]

/-- Why no system call takes a path. -/
def refusal? (path : Text) : Option FileError :=
  if path.contains '\x00' then some .nulInName
  else if path.isEmpty then some .notFound
  else if limit < (Utf8.encode path).length then some .nameTooLong
  else none

end FilePath

structure FileTree where
  files : List (Place × List UInt8) := []

namespace FileTree

def isFile (t : FileTree) (p : Place) : Bool :=
  t.files.any (·.1 == p)

/-- Whether a place lies above the tree, or on the way to a file. -/
def isDirectory (t : FileTree) (p : Place) : Bool :=
  p.isAbove || t.files.any fun f => p.isPrefixOf f.1 && p.length < f.1.length

/-- Follows names step by step from the place `here`. Every step has to start at a directory. -/
def walk (t : FileTree) : (here : Place) → List Text → Except FileError Place
  | here, [] => .ok here
  | here, name :: names =>
    if t.isFile here then .error .notADirectory
    else if !t.isDirectory here then .error .notFound
    else if name.isEmpty || name == ['.'] then t.walk here names
    else if name == Place.up then t.walk here.parent names
    else if FilePath.nameLimit < (Utf8.encode name).length then .error .nameTooLong
    else t.walk (here ++ [name]) names

/-- The place that a path leads to along the given steps; it need not exist. -/
def resolve (t : FileTree) (path : Text) (steps : List Text) : Except FileError Place :=
  match FilePath.refusal? path with
  | some e => .error e
  | none => t.walk (FilePath.start path) steps

def read (t : FileTree) (path : Text) : Except FileError (List UInt8) := do
  let place ← t.resolve path (FilePath.steps path)
  if t.isDirectory place then throw .isADirectory
  match t.files.lookup place with
  | some bytes => return bytes
  | none => throw .notFound

def contains (t : FileTree) (path : Text) : Bool :=
  match t.resolve path (FilePath.steps path) with
  | .ok place => t.isFile place || t.isDirectory place
  | .error _ => false

def insert (t : FileTree) (place : Place) (bytes : List UInt8) : FileTree where
  files := (place, bytes) :: t.files.filter (·.1 != place)

def write (t : FileTree) (path : Text) (bytes : List UInt8) : Except FileError FileTree := do
  let place ← t.resolve path (FilePath.stepsToWrite path)
  if t.isDirectory place then throw .isADirectory
  return t.insert place bytes

/-- Adds a file with the directories on the way to it. -/
def add (t : FileTree) (path : Text) (bytes : List UInt8) : FileTree :=
  t.insert ((Text.words (· == '/') path).filter (· != ['.'])) bytes

end FileTree

end RegisterMachine
