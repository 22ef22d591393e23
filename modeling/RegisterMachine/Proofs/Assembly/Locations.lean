import RegisterMachine.Proofs.Macro.Origins

/-!
# Source locations

The location of an instruction names a line of a file as it was written. With the definitions
blanked out, that line is the instruction, or it calls a macro and the instruction is one of the
lines that the call stands for (`SourceLocation.IsTrue`). The locations of a program come file by
file in link order, and line by line within a file (`areTrue_locations_of_compile`).
-/

namespace RegisterMachine

/-- The location is right about the file `f`, which is cut into the segments `segs`: its line is one
of the file, and what the blanking of definitions leaves of that line yields its text. -/
structure SourceLocation.IsTrue (table : MacroTable) (f : SourceFile) (segs : List Segment)
    (l : SourceLocation) : Prop where
  file : l.file = f.path
  line : ∃ k written stripped, l.line = k + 1 ∧ (Text.lines f.text)[k]? = some written ∧
    (Text.lines (MacroTable.blankedText segs))[k]? = some stripped ∧
    stripped.Sublist written ∧ table.Yields stripped l.text

/-- The locations of the instructions of a file. -/
def SourceFile.locations (f : SourceFile) : List SourceLocation :=
  f.codeLines.map fun c => ⟨f.path, f.origin c.number, c.code⟩

/-- The locations are those of instructions of the file `f`, in the order of their lines. -/
def LocatesIn (table : MacroTable) (f : SourceFile) (locations : List SourceLocation) : Prop :=
  ∃ segs, MacroTable.segmentsOf f = .ok segs ∧ (∀ l ∈ locations, l.IsTrue table f segs) ∧
    locations.Pairwise (·.line ≤ ·.line)

theorem locatesIn_of_expandFile {table : MacroTable} {f g : SourceFile} (htable : table.HasLines)
    (h : table.expandFile f = .ok g) : LocatesIn table f g.locations := by
  obtain ⟨segs, ls, hsegs, hls, hg⟩ := MacroTable.exists_of_expandFile h
  refine ⟨segs, hsegs, ?_, ?_⟩
  · intro l hl
    obtain ⟨c, hc, rfl⟩ := List.mem_map.1 hl
    obtain ⟨k, s, -, hs, hcode⟩ := MacroTable.exists_of_mem_codeLines htable hls hg hc
    obtain ⟨r, es, hr, -, hes, hmem⟩ :=
      MacroTable.exists_of_mem_expandLines hls (List.mem_of_getElem? hs)
    obtain ⟨j, hj, hstripped⟩ := SourceFile.mem_numberedLines_iff.1 hr
    have hthins := thins_blankedText (MacroTable.segmentsOf_eq_ok_iff.1 hsegs)
    obtain ⟨written, hwritten, hsublist⟩ := hthins.exists_of_getElem?_lines hstripped
    have hpath : g.path = f.path := by rw [hg]
    refine ⟨hpath, j, written, r, hj, hwritten, hstripped, hsublist, ?_⟩
    exact MacroTable.yields_of_expandLine hes hmem hcode
  · have hsorted := MacroTable.pairwise_expandLines hls (SourceFile.pairwise_numberedLines _)
    rw [SourceFile.locations, List.pairwise_map]
    apply g.pairwise_codeLines.imp_of_mem
    intro c c' hc hc' hlt
    obtain ⟨k, s, hk, hs, -⟩ := MacroTable.exists_of_mem_codeLines htable hls hg hc
    obtain ⟨k', s', hk', hs', -⟩ := MacroTable.exists_of_mem_codeLines htable hls hg hc'
    obtain ⟨hlength, hget⟩ := List.getElem?_eq_some_iff.1 hs
    obtain ⟨hlength', hget'⟩ := List.getElem?_eq_some_iff.1 hs'
    have hle := List.pairwise_iff_getElem.1 hsorted k k' hlength hlength' (by omega)
    rwa [hget, hget'] at hle

theorem map_location_code {files : List SourceFile} {units : List CompilationUnit}
    {code : List (Instruction × SourceLocation)}
    (hunits : CompilationUnit.collectAll files = .ok units)
    (hcode : Link.code (.ofUnits units) files = .ok code) :
    code.map (·.2) = files.flatMap (·.locations) := by
  have hcollects := CompilationUnit.collects_of_collectAll hunits
  -- the location of a line, found through the position of its file
  let location? (line : Nat × CodeLine) : Option SourceLocation :=
    files[line.1]?.map fun f => ⟨f.path, f.origin line.2.number, line.2.code⟩
  have hcodes : (linkedLines files).map location? = code.map fun x => some x.2 := by
    apply forall₂_iff_map_eq.1
    apply (hcollects.encodes hcode).imp
    rintro line x ⟨f, u, hf, hu, hx⟩
    have hcollect := rel_of_getElem? hcollects.collect_eq hf hu
    have hpath : u.path = f.path := (CompilationUnit.reads_of_collect hcollect).sameOrigin.path
    rw [Encoding.location_of_encodeCodeLine hx, hpath]
    exact congrArg (Option.map _) hf
  have hfiles : (linkedLines files).map location? = (files.flatMap (·.locations)).map some := by
    have hfile : ∀ x ∈ files.zipIdx,
        (x.1.codeLines.map (x.2, ·)).map location? = x.1.locations.map some := by
      intro x hx
      have hf : files[x.2]? = some x.1 := List.mem_zipIdx_iff_getElem?.1 hx
      simp [location?, hf, SourceFile.locations]
    calc (linkedLines files).map location?
      _ = files.zipIdx.flatMap fun x => x.1.locations.map some := by
        rw [linkedLines, List.map_flatMap]
        exact List.flatMap_congr hfile
      _ = (files.zipIdx.map (·.1)).flatMap fun f => f.locations.map some := by
        rw [List.flatMap_map]
      _ = (files.flatMap (·.locations)).map some := by
        rw [List.zipIdx_map_fst, List.map_flatMap]
  apply List.map_injective_iff.2 (Option.some_injective _)
  rw [← hfiles, hcodes, List.map_map]
  rfl

/-- The locations of a compiled program are true: there is one for each instruction, they come file
by file, and in each file line by line. -/
theorem areTrue_locations_of_compile {files : List SourceFile} {p : Program}
    (h : compile files = .ok p) :
    p.locations.size = p.size ∧ ∃ table parts, MacroTable.ofFiles files = .ok table ∧
      p.locations.toList = parts.flatten ∧ List.Forall₂ (LocatesIn table) files parts := by
  obtain ⟨expanded, hexpanded, hlink⟩ := bind_eq_ok_iff.1 h
  obtain ⟨table, htable, hfiles⟩ := bind_eq_ok_iff.1 hexpanded
  obtain ⟨units, code, hunits, -, hcode, rfl⟩ := link_eq_ok_iff.1 hlink
  have hlines := MacroTable.hasLines_of_ofFiles htable
  have hsize := (wellFormed_program hunits hcode).locations
  refine ⟨hsize, table, expanded.map (·.locations), htable, ?_, ?_⟩
  · rw [← List.flatMap_def, ← map_location_code hunits hcode]
    simp [Link.program]
  · apply List.forall₂_map_right_iff.2
    apply (forall₂_of_mapM_eq_ok hfiles).imp
    intro f g hg
    exact locatesIn_of_expandFile hlines hg

/-- A definition over three lines, two of which end in a carriage return, a call that stands for two
instructions, and a second file that calls the same macro. -/
theorem areTrue_locations_of_compile_two_files :
    ∃ files p table parts, compile files = .ok p ∧ p.locations.toList =
        [⟨"a.s".toList, 5, "mov R1, 1".toList⟩, ⟨"a.s".toList, 5, "add R1, 1".toList⟩,
          ⟨"a.s".toList, 6, "ret".toList⟩, ⟨"b.s".toList, 2, "mov R2, 1".toList⟩,
          ⟨"b.s".toList, 2, "add R2, 1".toList⟩] ∧
      p.locations.size = p.size ∧ MacroTable.ofFiles files = .ok table ∧
      p.locations.toList = parts.flatten ∧ List.Forall₂ (LocatesIn table) files parts := by
  let files : List SourceFile :=
    [{ path := "a.s".toList
       text :=
        "macro two(r) ".toList ++ '{' :: " mov r, 1\r\nadd r, 1\r\n".toList ++
          '}' :: " ; twice\n\n two(R1)\nret".toList },
     { path := "b.s".toList, text := "\ntwo(R2)\n".toList }]
  let place (file : String) (line : Nat) (text : String) : SourceLocation :=
    ⟨file.toList, line, text.toList⟩
  let p : Program :=
    { instructions :=
        #[⟨.mov, [.register 1, .immediate 1]⟩, ⟨.add, [.register 1, .immediate 1]⟩, ⟨.ret, []⟩,
          ⟨.mov, [.register 2, .immediate 1]⟩, ⟨.add, [.register 2, .immediate 1]⟩]
      locations :=
        #[place "a.s" 5 "mov R1, 1", place "a.s" 5 "add R1, 1", place "a.s" 6 "ret",
          place "b.s" 2 "mov R2, 1", place "b.s" 2 "add R2, 1"] }
  have hp : compile files = .ok p := by decide +kernel
  obtain ⟨hsize, table, parts, htable, hparts, hfiles⟩ := areTrue_locations_of_compile hp
  exact ⟨files, p, table, parts, hp, rfl, hsize, htable, hparts, hfiles⟩

end RegisterMachine
