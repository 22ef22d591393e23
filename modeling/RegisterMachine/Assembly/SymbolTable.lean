import RegisterMachine.Program.Basic

/-!
# Symbol tables

The names that a file declares, and the literals it uses. A table starts at a base, the number of
entries of the files before it, and indexes its entries by their position in the linked program.
Names are looked up without regard to case.
-/

namespace RegisterMachine

/-- Functions or labels of one file. -/
structure SymbolTable where
  /-- The number of entries of earlier files. -/
  base : Nat
  symbols : List Symbol := []
  /-- For each name in lower case the position of its symbol, earlier files included. -/
  index : List (Text × Nat) := []
  deriving DecidableEq, Repr

namespace SymbolTable

/-- Adds a symbol, or returns `none` if its name is taken. -/
def declare? (t : SymbolTable) (name : Text) (address : Nat) : Option SymbolTable :=
  let key := Text.foldCase name
  match t.index.lookup key with
  | some _ => none
  | none =>
    some
      { t with
        symbols := t.symbols ++ [⟨name, UInt32.ofNat address⟩]
        index := t.index ++ [(key, t.base + t.symbols.length)] }

def find? (t : SymbolTable) (name : Text) : Option Symbol := do
  let position ← t.index.lookup (Text.foldCase name)
  t.symbols[position - t.base]?

end SymbolTable

structure StringTable where
  base : Nat
  texts : List Text := []
  index : List (Text × Nat) := []
  deriving DecidableEq, Repr

def StringTable.intern (t : StringTable) (text : Text) : StringTable :=
  match t.index.lookup text with
  | some _ => t
  | none =>
    { t with texts := t.texts ++ [text], index := t.index ++ [(text, t.base + t.texts.length)] }

end RegisterMachine
