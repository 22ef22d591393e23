import RegisterMachine.Proofs.Assembly.Literals
import RegisterMachine.Proofs.Assembly.Resolution

/-!
# Positions in the linked tables

A unit keeps its symbols and literals in tables of its own but indexes them by their positions in
the tables of the linked program. `IsGlobalIndex` says what such an index has to be. The base that
the first pass adds to a position is the total of the units before it (`Collects.base_eq`), so the
concatenation of the linker and the subtraction of `find?` agree with it.

`collectShared` passes the totals from file to file as a state that all files share. It fails
before it writes to them, so they still are the totals of the files that were collected.
-/

namespace RegisterMachine

section Index

variable {α : Type} {whole own before after : List α} {base : Nat} {key : α → Text}
  {index : List (Text × Nat)}

/-- The index names each entry of a part of `whole`, which starts at `base`, by its position in
`whole`, and has nothing else. -/
structure IsGlobalIndex (whole : List α) (base : Nat) (own : List α) (key : α → Text)
    (index : List (Text × Nat)) : Prop where
  nodup : (index.map Prod.fst).Nodup
  range : ∀ k g, (k, g) ∈ index → base ≤ g ∧ g < base + own.length
  entry : ∀ k g, (k, g) ∈ index → ∃ x, whole[g]? = some x ∧ own[g - base]? = some x ∧ key x = k
  mem : ∀ j x, own[j]? = some x → (key x, base + j) ∈ index

theorem isGlobalIndex_zipIdx (hkeys : (own.map key).Nodup) :
    IsGlobalIndex (before ++ own ++ after) before.length own key
      ((own.map key).zipIdx before.length) where
  nodup := by rwa [List.zipIdx_map_fst]
  range k g h := by
    have hrange := List.mem_zipIdx h
    rw [List.length_map] at hrange
    exact ⟨hrange.1, hrange.2.1⟩
  entry k g h := by
    obtain ⟨hle, hk⟩ := List.mem_zipIdx_iff_le_and_getElem?_sub.1 h
    rw [List.getElem?_map, Option.map_eq_some_iff] at hk
    obtain ⟨x, hx, rfl⟩ := hk
    obtain ⟨hlt, -⟩ := List.getElem?_eq_some_iff.1 hx
    refine ⟨x, ?_, hx, rfl⟩
    rw [List.append_assoc, List.getElem?_append_right hle, List.getElem?_append_left hlt, hx]
  mem j x hx := by
    simp [List.mem_zipIdx_iff_le_and_getElem?_sub, hx]

theorem IsGlobalIndex.le_of_lookup {k : Text} {g : Nat} (h : IsGlobalIndex whole base own key index)
    (hk : index.lookup k = some g) : base ≤ g :=
  (h.range k g ((lookup_eq_some_iff_mem h.nodup).1 hk)).1

end Index

section Tables

variable {before after : List CompilationUnit} {u : CompilationUnit} {base : Nat}

/-- The index of a table holds positions in the tables of all units behind one another, if the table
starts where those of the units before it end. -/
theorem SymbolTable.IsIndexed.isGlobalIndex {table : CompilationUnit → SymbolTable}
    (h : (table u).IsIndexed) (hbase : (table u).base = base)
    (hlength : base = (before.flatMap fun v => (table v).symbols).length) :
    IsGlobalIndex ((before ++ u :: after).flatMap fun v => (table v).symbols) base
      (table u).symbols (fun s => Text.foldCase s.name) (table u).index := by
  rw [h.index, hbase, hlength, List.flatMap_append, List.flatMap_cons, ← List.append_assoc]
  exact isGlobalIndex_zipIdx h.nodup

theorem StringTable.IsIndexed.isGlobalIndex (h : u.strings.IsIndexed)
    (hnodup : u.strings.texts.Nodup) (hbase : u.strings.base = base)
    (hlength : base = (before.flatMap (·.strings.texts)).length) :
    IsGlobalIndex ((before ++ u :: after).flatMap (·.strings.texts)) base u.strings.texts id
      u.strings.index := by
  have hindex : u.strings.index = (u.strings.texts.map id).zipIdx u.strings.base := by
    rw [List.map_id, h]
  rw [hindex, hbase, hlength, List.flatMap_append, List.flatMap_cons, ← List.append_assoc]
  exact isGlobalIndex_zipIdx (by rwa [List.map_id])

end Tables

/-- The totals behind units that start at the given totals. -/
def Offsets.after (base : Offsets) (units : List CompilationUnit) : Offsets where
  instruction := base.instruction + (units.map (·.instructionCount)).sum
  function := base.function + (units.flatMap (·.functions.symbols)).length
  label := base.label + (units.flatMap (·.labels.symbols)).length
  string := base.string + (units.flatMap (·.strings.texts)).length

namespace CompilationUnit

variable {paths : List Text} {base : Offsets} {files : List SourceFile}
  {units before after : List CompilationUnit} {u : CompilationUnit} {f : SourceFile}

theorem after_cons (h : u.base = base) : base.after (u :: units) = u.offsetsAfter.after units := by
  subst h
  simp only [Offsets.after, offsetsAfter, List.map_cons, List.sum_cons, List.flatMap_cons,
    List.length_append, Nat.add_assoc]

/-- A unit starts at the totals of the units before it. -/
theorem Collects.base_eq (h : Collects paths base files (before ++ u :: after)) :
    u.base = base.after before := by
  induction before generalizing base files with
  | nil =>
    cases h with
    | cons h _ => exact (isCollected_of_collect h).base
  | cons v before ih =>
    cases h with
    | cons h hs => rw [ih hs, after_cons (isCollected_of_collect h).base]

/-- Steps that can fail but leave the state alone leave it alone together. -/
theorem foldlM_ofExcept {ε σ α β : Type} (step : β → α → Except ε β) (xs : List α) (b : β) (s : σ) :
    xs.foldlM (fun b x => (MonadExcept.ofExcept (step b x) : EStateM ε σ β)) b s =
      match xs.foldlM step b with
      | .ok b' => .ok b' s
      | .error e => .error e s := by
  induction xs generalizing b with
  | nil => rfl
  | cons x xs ih =>
    rw [List.foldlM_cons, List.foldlM_cons]
    cases hx : step b x with
    | error e => rfl
    | ok b' => exact ih b'

/-- The totals are written once the whole file is collected. -/
theorem collectShared_eq (paths : List Text) (f : SourceFile) (offsets : Offsets) :
    collectShared paths f offsets =
      match collect paths offsets f with
      | .ok u => .ok u u.offsetsAfter
      | .error e => .error e offsets := by
  have hshared := foldlM_ofExcept (collectLine paths f) f.numberedLines (empty f.path offsets)
    offsets
  rw [← collect] at hshared
  have hbind : collectShared paths f offsets =
      EStateM.bind (f.numberedLines.foldlM (fun u line => MonadExcept.ofExcept
        (collectLine paths f u line)) (empty f.path offsets))
        (fun u => EStateM.bind (set u.offsetsAfter) fun _ => pure u) offsets := rfl
  rw [hbind, EStateM.bind, hshared]
  cases collect paths offsets f <;> rfl

/-- Collecting files one after the other through the shared totals gives the units of the files up
to the first that fails, and leaves the totals behind them. -/
theorem mapM_collectShared_eq (paths : List Text) (base : Offsets) (files : List SourceFile) :
    files.mapM (collectShared paths) base =
      match collectPrefix paths base files with
      | (units, none) => .ok units (base.after units)
      | (units, some e) => .error e (base.after units) := by
  induction files generalizing base with
  | nil => rfl
  | cons f fs ih =>
    have hbind : (f :: fs).mapM (collectShared paths) base =
        EStateM.bind (collectShared paths f) (fun u =>
          EStateM.bind (fs.mapM (collectShared paths)) fun us => pure (u :: us)) base := by
      rw [List.mapM_cons]
      rfl
    rw [hbind, EStateM.bind, collectShared_eq, collectPrefix]
    cases hf : collect paths base f with
    | error e => rfl
    | ok u =>
      have hu : u.base = base := (isCollected_of_collect hf).base
      dsimp only [EStateM.bind]
      rw [ih u.offsetsAfter]
      obtain ⟨units, e⟩ := collectPrefix paths u.offsetsAfter fs
      cases e with
      | none => exact congrArg (EStateM.Result.ok (u :: units)) (after_cons hu).symm
      | some e => exact congrArg (EStateM.Result.error e) (after_cons hu).symm

/-- A file that cannot be collected leaves the shared totals as they were. -/
theorem collectShared_eq_error_iff {offsets offsets' : Offsets} {e : CompileError} :
    collectShared paths f offsets = .error e offsets' ↔
      collect paths offsets f = .error e ∧ offsets' = offsets := by
  rw [collectShared_eq]
  cases collect paths offsets f with
  | ok u => simp
  | error e' => simp [eq_comm]

/-- How a unit stands in the linked program: behind the earlier units, with indices into the tables
of the program for all that its file declares and loads. -/
structure IsPositioned (p : Program) (f : SourceFile) (earlier : List CompilationUnit)
    (u : CompilationUnit) : Prop where
  base : u.base = Offsets.after {} earlier
  base_functions : u.functions.base = u.base.function
  base_labels : u.labels.base = u.base.label
  base_strings : u.strings.base = u.base.string
  functions : IsGlobalIndex p.functions.toList u.base.function u.functions.symbols
    (fun s => Text.foldCase s.name) u.functions.index
  labels : IsGlobalIndex p.labels.toList u.base.label u.labels.symbols
    (fun s => Text.foldCase s.name) u.labels.index
  strings : IsGlobalIndex p.strings.toList u.base.string u.strings.texts id u.strings.index
  declared (kind : SymbolKind) :
    (u.symbols kind).map (·.name) = (declaredNames kind f.numberedLines).map (·.2)
  loaded : u.strings.texts = f.literals.eraseDups
  /-- The base can be taken away from the position of a name. -/
  base_le (name : Text) (g : Nat) :
    (u.functions.index.lookup (Text.foldCase name) = some g → u.base.function ≤ g) ∧
      (u.labels.index.lookup (Text.foldCase name) = some g → u.base.label ≤ g)
  find? (kind : SymbolKind) (name : Text) (s : Symbol) :
    u.find? kind name = some s ↔ s ∈ u.symbols kind ∧ Text.foldCase s.name = Text.foldCase name

/-- The indices of all units are positions in the tables that the linker puts together, and the
shared totals end up behind the last unit. -/
structure ArePositioned (files : List SourceFile) (units : List CompilationUnit) : Prop where
  length : units.length = files.length
  unit (i : Nat) (f : SourceFile) (u : CompilationUnit) : files[i]? = some f → units[i]? = some u →
    ∀ code, u.IsPositioned (Link.program units code) f (units.take i)
  shared : files.mapM (collectShared (files.map (·.path))) {} = .ok units (Offsets.after {} units)

theorem Collects.isPositioned (h : Collects paths {} files (before ++ u :: after))
    (hf : collect paths u.base f = .ok u) (code : List (Instruction × SourceLocation)) :
    u.IsPositioned (Link.program (before ++ u :: after) code) f before := by
  have hu := isCollected_of_collect hf
  have horigin := (reads_of_collect hf).sameOrigin
  have hindexed : u.IsIndexed := h.isIndexed u (by simp)
  have hbase : u.base = Offsets.after {} before := h.base_eq
  have htexts := texts_of_collect hf
  have hfunctions : IsGlobalIndex (Link.program (before ++ u :: after) code).functions.toList
      u.base.function u.functions.symbols (fun s => Text.foldCase s.name) u.functions.index :=
    hindexed.functions.isGlobalIndex horigin.base_functions (by simp [hbase, Offsets.after])
  have hlabels : IsGlobalIndex (Link.program (before ++ u :: after) code).labels.toList
      u.base.label u.labels.symbols (fun s => Text.foldCase s.name) u.labels.index :=
    hindexed.labels.isGlobalIndex horigin.base_labels (by simp [hbase, Offsets.after])
  exact {
    base := hbase
    base_functions := horigin.base_functions
    base_labels := horigin.base_labels
    base_strings := hu.base_strings
    functions := hfunctions
    labels := hlabels
    strings := hu.isIndexed_strings.isGlobalIndex (htexts ▸ nodup_eraseDups _) hu.base_strings
      (by simp [hbase, Offsets.after])
    declared := fun kind => by simp [hu.symbols, Function.comp_def]
    loaded := htexts
    base_le := fun name g => ⟨hfunctions.le_of_lookup, hlabels.le_of_lookup⟩
    find? := fun kind name s => hindexed.find?_eq_some_iff }

end CompilationUnit

/-- Whatever files the first pass accepts, the indices of their units are positions in the tables of
the linked program; and a file that it does not accept leaves the shared totals as they were. -/
theorem arePositioned_of_collectAll {files : List SourceFile} {units : List CompilationUnit}
    (h : CompilationUnit.collectAll files = .ok units) :
    CompilationUnit.ArePositioned files units ∧
      ∀ paths f offsets e offsets',
        CompilationUnit.collectShared paths f offsets = .error e offsets' ↔
          CompilationUnit.collect paths offsets f = .error e ∧ offsets' = offsets := by
  have hcollects := CompilationUnit.collects_of_collectAll h
  refine ⟨⟨hcollects.forall₂.length_eq.symm, fun i f u hf hu code => ?_, ?_⟩,
    fun _ _ _ _ _ => CompilationUnit.collectShared_eq_error_iff⟩
  · have hcollect : CompilationUnit.collect (files.map (·.path)) u.base f = .ok u :=
      rel_of_getElem? hcollects.collect_eq hf hu
    obtain ⟨hi, rfl⟩ := List.getElem?_eq_some_iff.1 hu
    have hsplit : units = units.take i ++ units[i] :: units.drop (i + 1) := by
      rw [← List.drop_eq_getElem_cons hi, List.take_append_drop]
    have hpositioned := CompilationUnit.Collects.isPositioned (hsplit ▸ hcollects) hcollect code
    rwa [← hsplit] at hpositioned
  · rw [CompilationUnit.mapM_collectShared_eq, CompilationUnit.collectPrefix_of_collects hcollects]

/-- Each file keeps the literal that both load in its own table, and the second file declares a
function behind that of the first. -/
theorem arePositioned_of_collectAll_two_files :
    ∃ files units, CompilationUnit.collectAll files = .ok units ∧
      units.map (·.functions.index) = [[("main".toList, 0)], [("f".toList, 1)]] ∧
      units.map (·.strings.index) = [[("a".toList, 0)], [("b".toList, 1), ("a".toList, 2)]] ∧
      CompilationUnit.ArePositioned files units ∧
      ∀ paths f offsets e offsets',
        CompilationUnit.collectShared paths f offsets = .error e offsets' ↔
          CompilationUnit.collect paths offsets f = .error e ∧ offsets' = offsets := by
  let main : SourceFile :=
    { path := "main.s".toList, text := "function Main:\nldstr R0, \"a\"\nl:\ncall F\n".toList }
  let lib : SourceFile :=
    { path := "lib.s".toList
      text := "function F:\nldstr R1, \"b\"\nldstr R2, \"a\"\nret\n".toList }
  let first : CompilationUnit :=
    { path := "main.s".toList
      base := {}
      functions := { base := 0, symbols := [⟨"Main".toList, 0⟩], index := [("main".toList, 0)] }
      labels := { base := 0, symbols := [⟨"l".toList, 1⟩], index := [("l".toList, 0)] }
      strings := { base := 0, texts := ["a".toList], index := [("a".toList, 0)] }
      stringLines := [(2, "ldstr R0, \"a\"".toList)]
      instructionCount := 2 }
  let second : CompilationUnit :=
    { path := "lib.s".toList
      base := { instruction := 2, function := 1, label := 1, string := 1 }
      functions := { base := 1, symbols := [⟨"F".toList, 2⟩], index := [("f".toList, 1)] }
      labels := { base := 1 }
      strings :=
        { base := 1
          texts := ["b".toList, "a".toList]
          index := [("b".toList, 1), ("a".toList, 2)] }
      stringLines := [(2, "ldstr R1, \"b\"".toList), (3, "ldstr R2, \"a\"".toList)]
      instructionCount := 3 }
  have hunits : CompilationUnit.collectAll [main, lib] = .ok [first, second] := by decide +kernel
  exact ⟨[main, lib], [first, second], hunits, rfl, rfl, arePositioned_of_collectAll hunits⟩

end RegisterMachine
