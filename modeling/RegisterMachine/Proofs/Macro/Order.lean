import Mathlib.Data.List.Nodup
import RegisterMachine.Proofs.Macro.Lines

/-!
# The order of files

The macros of all files are collected before any file is expanded, and no two of them have the same
name. So the table is the list of all definitions (`MacroTable.ofFiles_eq_ok_iff`); in another order
of the files it is in another order itself, but it finds the same macro under every name, and a file
expands with it to the same lines (`expandMacros_of_perm`).
-/

namespace RegisterMachine

namespace MacroTable

variable {table table' : MacroTable} {files : List SourceFile} {f g : SourceFile} {d : MacroDef}
  {ds : List MacroDef} {name line : Text}

/-- The macros that a file defines. -/
def definitions (f : SourceFile) : List MacroDef :=
  match segmentsOf f with
  | .ok segs => segs.filterMap Segment.definition?
  | .error _ => []

theorem definitions_eq {segs : List Segment} (h : segmentsOf f = .ok segs) :
    definitions f = segs.filterMap Segment.definition? := by
  rw [definitions, h]

theorem find?_eq_none_iff : table.find? name = none ↔ name ∉ table.map (·.name) := by
  unfold find?
  rw [List.find?_eq_none, List.mem_map]
  simp

theorem insert_eq_ok_iff :
    table.insert d = .ok table' ↔ d.name ∉ table.map (·.name) ∧ table' = table ++ [d] := by
  rw [← find?_eq_none_iff]
  unfold insert
  split <;> rename_i hfind <;> simp [hfind, eq_comm]

theorem foldlM_insert_eq_ok_iff (hnodup : (table.map (·.name)).Nodup) :
    ds.foldlM insert table = .ok table' ↔
      ((table ++ ds).map (·.name)).Nodup ∧ table' = table ++ ds := by
  induction ds generalizing table with
  | nil =>
    rw [List.foldlM_nil, pure_eq_ok_iff, List.append_nil, eq_comm]
    exact (and_iff_right hnodup).symm
  | cons d ds ih =>
    rw [List.foldlM_cons, bind_eq_ok_iff, List.append_cons]
    constructor
    · rintro ⟨_, hinsert, h⟩
      obtain ⟨hfresh, rfl⟩ := insert_eq_ok_iff.1 hinsert
      refine (ih ?_).1 h
      rw [List.map_append, List.map_singleton, ← List.concat_eq_append]
      exact hnodup.concat hfresh
    · rintro ⟨hall, rfl⟩
      have hprefix : ((table ++ [d]).map (·.name)).Nodup := by
        rw [List.map_append] at hall
        exact hall.of_append_left
      refine ⟨table ++ [d], insert_eq_ok_iff.2 ⟨fun hmem => ?_, rfl⟩, (ih hprefix).2 ⟨hall, rfl⟩⟩
      rw [List.map_append, List.map_singleton] at hprefix
      exact List.disjoint_of_nodup_append hprefix hmem List.mem_cons_self

/-- Files give a table if each of them can be cut into segments and no name is defined twice; the
table then holds all definitions. -/
theorem ofFiles_eq_ok_iff :
    ofFiles files = .ok table ↔ (∀ f ∈ files, ∃ segs, segmentsOf f = .ok segs) ∧
      (table.map (·.name)).Nodup ∧ table = files.flatMap definitions := by
  -- the fold starts from any table of different names
  suffices h : ∀ start : MacroTable, (start.map (·.name)).Nodup →
      (files.foldlM (fun table f => do
        let segs ← segmentsOf f
        (segs.filterMap Segment.definition?).foldlM insert table) start = .ok table ↔
        (∀ f ∈ files, ∃ segs, segmentsOf f = .ok segs) ∧
          (table.map (·.name)).Nodup ∧ table = start ++ files.flatMap definitions) from
    h [] .nil
  induction files with
  | nil =>
    intro start hstart
    rw [List.foldlM_nil, pure_eq_ok_iff, List.flatMap_nil, List.append_nil]
    constructor
    · rintro rfl
      exact ⟨by simp, hstart, rfl⟩
    · rintro ⟨-, -, rfl⟩
      rfl
  | cons f files ih =>
    intro start hstart
    rw [List.foldlM_cons, List.forall_mem_cons, List.flatMap_cons, bind_eq_ok_iff]
    constructor
    · rintro ⟨_, hf, h⟩
      obtain ⟨segs, hsegs, hf⟩ := bind_eq_ok_iff.1 hf
      obtain ⟨hnodup, rfl⟩ := (foldlM_insert_eq_ok_iff hstart).1 hf
      obtain ⟨hfiles, htable, rfl⟩ := (ih _ hnodup).1 h
      rw [definitions_eq hsegs]
      exact ⟨⟨⟨segs, hsegs⟩, hfiles⟩, htable, List.append_assoc _ _ _⟩
    · rintro ⟨⟨⟨segs, hsegs⟩, hfiles⟩, htable, heq⟩
      rw [definitions_eq hsegs, ← List.append_assoc] at heq
      have hnodup : ((start ++ segs.filterMap Segment.definition?).map (·.name)).Nodup := by
        rw [heq, List.map_append] at htable
        exact htable.of_append_left
      refine ⟨start ++ segs.filterMap Segment.definition?, ?_,
        (ih _ hnodup).2 ⟨hfiles, htable, heq⟩⟩
      exact bind_eq_ok_iff.2 ⟨segs, hsegs, (foldlM_insert_eq_ok_iff hstart).2 ⟨hnodup, rfl⟩⟩

/-- The tables are as long as one another and have the same macro under every name. -/
structure SameMacros (table table' : MacroTable) : Prop where
  length : table'.length = table.length
  find? (name : Text) : table'.find? name = table.find? name

/-- Different names are found wherever they stand. -/
theorem find?_eq_some_iff (hnodup : (table.map (·.name)).Nodup) :
    table.find? name = some d ↔ d ∈ table ∧ d.name = name := by
  constructor
  · intro h
    exact ⟨List.mem_of_find?_eq_some h, by simpa using List.find?_some h⟩
  · rintro ⟨hd, rfl⟩
    cases hfind : table.find? d.name with
    | none => exact absurd (List.mem_map_of_mem hd) (find?_eq_none_iff.1 hfind)
    | some d' =>
      have hname : d'.name = d.name := by simpa using List.find?_some hfind
      rw [List.inj_on_of_nodup_map hnodup (List.mem_of_find?_eq_some hfind) hd hname]

theorem sameMacros_of_perm (h : table.Perm table') (hnodup : (table.map (·.name)).Nodup) :
    table.SameMacros table' := by
  have hnodup' : (table'.map (·.name)).Nodup := (h.map _).nodup_iff.1 hnodup
  refine ⟨h.length_eq.symm, fun name => Option.ext fun d => ?_⟩
  rw [find?_eq_some_iff hnodup, find?_eq_some_iff hnodup', h.mem_iff]

theorem SameMacros.call? (h : table.SameMacros table') (line : Text) :
    table'.call? line = table.call? line := by
  unfold MacroTable.call?
  simp only [h.find?]

theorem SameMacros.expandCall (h : table.SameMacros table') (budget : Nat) (chain : List Text)
    (d : MacroDef) (args : List Text) :
    table'.expandCall budget chain d args = table.expandCall budget chain d args := by
  induction budget generalizing chain d args with
  | zero => rfl
  | succ budget ih => simp only [MacroTable.expandCall, h.call?, ih]

theorem SameMacros.expandFile (h : table.SameMacros table') (f : SourceFile) :
    table'.expandFile f = table.expandFile f := by
  have hline (line : Text) : table'.expandLine line = table.expandLine line := by
    unfold expandLine
    simp only [h.call?, h.expandCall, h.length]
  unfold MacroTable.expandFile expandLines
  simp only [hline]

/-- What a file expands to. One that does not expand is left as it is. -/
def expanded (table : MacroTable) (f : SourceFile) : SourceFile :=
  match table.expandFile f with
  | .ok g => g
  | .error _ => f

theorem expanded_of_expandFile (h : table.expandFile f = .ok g) : table.expanded f = g := by
  rw [expanded, h]

end MacroTable

variable {files files' out : List SourceFile}

/-- Files that expand do so in every order, each file to the same one. -/
theorem exists_expandMacros_of_perm (hfiles : files.Perm files') (h : expandMacros files = .ok out) :
    ∃ expanded, out = files.map expanded ∧ expandMacros files' = .ok (files'.map expanded) := by
  obtain ⟨table, htable, hout⟩ := bind_eq_ok_iff.1 h
  obtain ⟨hsegs, hnodup, htable⟩ := MacroTable.ofFiles_eq_ok_iff.1 htable
  have hperm : table.Perm (files'.flatMap MacroTable.definitions) :=
    htable ▸ hfiles.flatMap_right _
  have hsame := MacroTable.sameMacros_of_perm hperm hnodup
  have hexpands : ∀ f ∈ files, table.expandFile f = .ok (table.expanded f) := by
    intro f hf
    obtain ⟨g, -, hg⟩ := exists_mem_of_forall₂ (forall₂_of_mapM_eq_ok hout).flip hf
    rw [hg, MacroTable.expanded_of_expandFile hg]
  refine ⟨table.expanded, ?_, bind_eq_ok_iff.2 ⟨_, MacroTable.ofFiles_eq_ok_iff.2 ⟨?_, ?_, rfl⟩, ?_⟩⟩
  · rw [mapM_eq_ok_of_forall hexpands] at hout
    exact (Except.ok.inj hout).symm
  · exact fun f hf => hsegs f (hfiles.mem_iff.2 hf)
  · exact (hperm.map _).nodup_iff.1 hnodup
  · refine mapM_eq_ok_of_forall fun f hf => ?_
    rw [hsame.expandFile, hexpands f (hfiles.mem_iff.2 hf)]

/-- Expansion does not depend on the order of the files: in another order they expand exactly if they
do in this one, and the expanded files are then the same, in that other order. -/
theorem expandMacros_of_perm (hfiles : files.Perm files') :
    ((∃ out, expandMacros files = .ok out) ↔ ∃ out', expandMacros files' = .ok out') ∧
      ∀ out out', expandMacros files = .ok out → expandMacros files' = .ok out' →
        ∃ expanded : SourceFile → SourceFile,
          out = files.map expanded ∧ out' = files'.map expanded := by
  refine ⟨⟨?_, ?_⟩, fun out out' h h' => ?_⟩
  · rintro ⟨out, h⟩
    obtain ⟨_, -, h'⟩ := exists_expandMacros_of_perm hfiles h
    exact ⟨_, h'⟩
  · rintro ⟨out', h'⟩
    obtain ⟨_, -, h⟩ := exists_expandMacros_of_perm hfiles.symm h'
    exact ⟨_, h⟩
  · obtain ⟨expanded, hout, hexpanded⟩ := exists_expandMacros_of_perm hfiles h
    rw [h'] at hexpanded
    exact ⟨expanded, hout, Except.ok.inj hexpanded⟩

/-- A file that calls what another one defines, in front of it and behind it. -/
theorem expandMacros_of_perm_swap :
    ∃ f g out out', [f, g].Perm [g, f] ∧ expandMacros [f, g] = .ok out ∧
      expandMacros [g, f] = .ok out' ∧ out.map (·.text) = ["add R5, 1\n".toList, "ret\n".toList] ∧
      ∃ expanded : SourceFile → SourceFile,
        out = [f, g].map expanded ∧ out' = [g, f].map expanded := by
  let f : SourceFile := { path := "main.s".toList, text := "bump(R5)\n".toList }
  let g : SourceFile :=
    { path := "lib.s".toList
      text :=
        "macro bump(r) ".toList ++ '{' :: "\n add r, 1\n".toList ++ '}' :: "\nret".toList }
  let f' : SourceFile := { f with text := "add R5, 1\n".toList, origins := [1] }
  let g' : SourceFile := { g with text := "ret\n".toList, origins := [4] }
  have hswap : [f, g].Perm [g, f] := .swap g f []
  have hout : expandMacros [f, g] = .ok [f', g'] := by decide +kernel
  obtain ⟨out', hout'⟩ := (expandMacros_of_perm hswap).1.1 ⟨_, hout⟩
  exact ⟨f, g, _, out', hswap, hout, hout', rfl, (expandMacros_of_perm hswap).2 _ _ hout hout'⟩

end RegisterMachine
