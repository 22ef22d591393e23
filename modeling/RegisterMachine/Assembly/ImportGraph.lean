import RegisterMachine.Assembly.Unit

/-!
# Imports

A unit sees itself and every unit that it imports, directly or through others. The order matters:
a name belongs to the first visible unit that declares it, and units are visible breadth first.
-/

namespace RegisterMachine

def lastIndexOf? (path : Text) : List Text → Option Nat
  | [] => none
  | p :: ps =>
    match lastIndexOf? path ps with
    | some i => some (i + 1)
    | none => if p = path then some 0 else none

/-- For each unit the positions of the units that it sees. -/
structure ImportGraph where
  visible : Array (List Nat)
  deriving DecidableEq, Repr

namespace ImportGraph

/-- The positions of the units that a unit imports itself. Where a path occurs more than once, it
names the last unit. -/
def imports (units : List CompilationUnit) (i : Nat) : List Nat :=
  match units[i]? with
  | none => []
  | some u => u.imports.filterMap fun path => lastIndexOf? path (units.map (·.path))

/-- The first list, then the members of the second that are not yet there. -/
def addNew (seen next : List Nat) : List Nat :=
  next.foldl (fun seen i => if i ∈ seen then seen else seen ++ [i]) seen

/-- Breadth first search. `seen` lists what was reached, in order, and the first `done` of them have
been looked at. Every round looks at one more, so as many rounds as there are units suffice. -/
def explore (edges : Nat → List Nat) : (rounds done : Nat) → (seen : List Nat) → List Nat
  | 0, _, seen => seen
  | rounds + 1, done, seen =>
    match seen[done]? with
    | none => seen
    | some i => explore edges rounds (done + 1) (addNew seen (edges i))

def build (units : List CompilationUnit) : ImportGraph where
  visible := Array.ofFn fun i : Fin units.length =>
    explore (imports units) units.length 0 [i.val]

/-- The units that unit `i` sees: itself first, then breadth first. -/
def visibleFrom (g : ImportGraph) (i : Nat) : List Nat :=
  g.visible.getD i []

def reaches (g : ImportGraph) (i j : Nat) : Bool :=
  j ∈ g.visibleFrom i

end ImportGraph

def sharedName? (kind : SymbolKind) (later earlier : CompilationUnit) : Option Text :=
  ((later.symbols kind).find? fun s => (earlier.find? kind s.name).isSome).map (·.name)

/-- The first name that is declared in two files of which one sees the other, as the error of the
later file. -/
def visibleDuplicate? (units : List CompilationUnit) (g : ImportGraph) : Option CompileError :=
  units.zipIdx.findSome? fun (later, i) =>
    (units.take i).zipIdx.findSome? fun (earlier, j) =>
      if g.reaches i j || g.reaches j i then
        [SymbolKind.function, SymbolKind.label].findSome? fun kind =>
          (sharedName? kind later earlier).map fun name =>
            CompileError.inFile
              { stage := .collect, cause := .duplicateSymbol kind name (some earlier.path) }
              later.path
      else none

end RegisterMachine
