import RegisterMachine.Proofs.Macro.Origins

/-!
# What expansion leaves

No line of an expanded file is a call of a macro. A line that expansion passes on is none, at every
depth (`MacroTable.call?_eq_none_of_expandLine`), and it is still none when the written file is cut
into lines again, as only a carriage return at its end can be lost. Every line comes with the number
of a line of the file that is not blank (`isExpanded_of_expandMacros`).
-/

namespace RegisterMachine

namespace Text

variable {s t : Text}

/-- Blanks at the end of a line are part of its comment, or they are kept. -/
theorem stripComment.go_append (ht : ∀ c ∈ t, isBlank c) (inLiteral : Bool) (s : Text) :
    go inLiteral (s ++ t) = go inLiteral s ++ t ∨ go inLiteral (s ++ t) = go inLiteral s := by
  induction s generalizing inLiteral with
  | nil =>
    have hsemicolon : ';' ∉ t := fun hmem => absurd (ht _ hmem) (by decide)
    exact .inl (go_of_notMem inLiteral hsemicolon)
  | cons c s ih =>
    simp only [List.cons_append, go]
    split
    · exact (ih (!inLiteral)).imp (congrArg (c :: ·)) (congrArg (c :: ·))
    split
    · exact .inr rfl
    · exact (ih inLiteral).imp (congrArg (c :: ·)) (congrArg (c :: ·))

theorem trim_stripComment_append (ht : ∀ c ∈ t, isBlank c) :
    trim (stripComment (s ++ t)) = trim (stripComment s) := by
  unfold stripComment
  rcases stripComment.go_append ht false s with h | h
  · rw [h, trim_append_of_forall ht]
  · rw [h]

end Text

namespace MacroTable

variable {table : MacroTable} {d : MacroDef} {args ls : List Text} {line : Text}
  {f g : SourceFile}

theorem call?_dropReturn (table : MacroTable) (line : Text) :
    table.call? (Text.dropReturn line) = table.call? line := by
  obtain ⟨after, hline, hafter⟩ := Text.exists_append_dropReturn line
  have htrim : Text.trim (Text.stripComment line) =
      Text.trim (Text.stripComment (Text.dropReturn line)) := by
    conv_lhs => rw [hline]
    exact Text.trim_stripComment_append hafter
  unfold call? MacroCall.parse?
  rw [htrim]

/-- Calls are expanded at every depth. -/
theorem call?_eq_none_of_expandCall {budget : Nat} {chain : List Text}
    (h : table.expandCall budget chain d args = .ok ls) : ∀ l ∈ ls, table.call? l = none := by
  induction budget generalizing chain d args ls with
  | zero => cases h
  | succ budget ih =>
    obtain ⟨parts, rfl, hparts⟩ := exists_parts_of_expandCall h
    intro l hl
    obtain ⟨part, hpart, hl⟩ := List.mem_flatten.1 hl
    obtain ⟨line, -, hpart⟩ := exists_mem_of_forall₂ hparts hpart
    unfold expandBodyLine at hpart
    split at hpart
    · exact ih hpart l hl
    · rename_i hcall
      cases hpart
      obtain rfl := List.mem_singleton.1 hl
      exact hcall

theorem call?_eq_none_of_expandLine (h : table.expandLine line = .ok ls) :
    ∀ l ∈ ls, table.call? l = none := by
  unfold expandLine at h
  split at h
  · exact call?_eq_none_of_expandCall h
  · rename_i hcall
    cases h
    intro l hl
    obtain rfl := List.mem_singleton.1 hl
    exact hcall

/-- The file `g` is what the file `f` expands to: no line of it calls a macro, and each of them has
the number of a line of `f` that is not blank when the definitions are blanked out, in order. -/
structure IsExpanded (table : MacroTable) (f g : SourceFile) : Prop where
  path : g.path = f.path
  notCall : ∀ l ∈ Text.lines g.text, table.call? l = none
  length_origins : g.origins.length = (Text.lines g.text).length
  pairwise_origins : g.origins.Pairwise (· ≤ ·)
  origins : ∃ segs, segmentsOf f = .ok segs ∧ ∀ n ∈ g.origins, ∃ k written, n = k + 1 ∧
    (Text.lines (blankedText segs))[k]? = some written ∧ Text.trim written ≠ []

theorem isExpanded_of_expandFile (htable : table.HasLines) (h : table.expandFile f = .ok g) :
    table.IsExpanded f g := by
  obtain ⟨segs, ls, hsegs, hls, rfl⟩ := exists_of_expandFile h
  have hlines : Text.lines (Text.unlines (ls.map (·.2))) = (ls.map (·.2)).map Text.dropReturn :=
    Text.lines_unlines (newline_notMem_of_expandLines htable hls)
  refine ⟨rfl, ?_, ?_, ?_, segs, hsegs, ?_⟩
  · intro l hl
    rw [hlines, List.map_map] at hl
    obtain ⟨⟨n, l⟩, hnl, rfl⟩ := List.mem_map.1 hl
    obtain ⟨r, es, -, -, hes, hmem⟩ := exists_of_mem_expandLines hls hnl
    exact (table.call?_dropReturn l).trans (call?_eq_none_of_expandLine hes l hmem)
  · rw [hlines, List.length_map, List.length_map, List.length_map]
  · exact List.pairwise_map.2 (pairwise_expandLines hls (SourceFile.pairwise_numberedLines _))
  · intro n hn
    obtain ⟨⟨n, l⟩, hl, rfl⟩ := List.mem_map.1 hn
    obtain ⟨r, -, hr, hblank, -, -⟩ := exists_of_mem_expandLines hls hl
    obtain ⟨k, hk, hwritten⟩ := SourceFile.mem_numberedLines_iff.1 hr
    exact ⟨k, r, hk, hwritten, hblank⟩

end MacroTable

/-- Nothing is left to expand: no line of an expanded file is a call of one of the macros, and the
origins of an expanded file are one number for each of its lines, in order, of lines of the file
that are not blank once the definitions are blanked out. -/
theorem isExpanded_of_expandMacros {files out : List SourceFile} (h : expandMacros files = .ok out) :
    ∃ table, MacroTable.ofFiles files = .ok table ∧ List.Forall₂ table.IsExpanded files out := by
  obtain ⟨table, htable, hout⟩ := bind_eq_ok_iff.1 h
  refine ⟨table, htable, (forall₂_of_mapM_eq_ok hout).imp fun f g hg => ?_⟩
  exact MacroTable.isExpanded_of_expandFile (MacroTable.hasLines_of_ofFiles htable) hg

/-- Calls within a call, the first of which leaves a blank line behind, and a line that ends in two
carriage returns. -/
theorem isExpanded_of_expandMacros_nested :
    ∃ files out table, expandMacros files = .ok out ∧
      out.map (·.text) = ["cmp R1, 0\r\nsyscall\n\nsyscall\nret\n".toList] ∧
      out.map (·.origins) = [[8, 10, 10, 10, 10]] ∧ MacroTable.ofFiles files = .ok table ∧
      List.Forall₂ table.IsExpanded files out := by
  let files : List SourceFile :=
    [{ path := "f.s".toList
       text :=
        "macro both(a, b) ".toList ++ '{' :: "\n  a\n  b\n".toList ++
          '}' :: "\nmacro twice(y) ".toList ++ '{' :: "\nboth(y, )\nboth(y, ret)\n".toList ++
          '}' :: "cmp R1, 0\r\r\n\ntwice(syscall) ; calls".toList }]
  let out : List SourceFile :=
    [{ path := "f.s".toList, text := "cmp R1, 0\r\nsyscall\n\nsyscall\nret\n".toList
       origins := [8, 10, 10, 10, 10] }]
  have hout : expandMacros files = .ok out := by decide +kernel
  obtain ⟨table, htable, hexpanded⟩ := isExpanded_of_expandMacros hout
  exact ⟨files, out, table, hout, rfl, rfl, htable, hexpanded⟩

end RegisterMachine
