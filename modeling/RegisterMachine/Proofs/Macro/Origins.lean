import RegisterMachine.Proofs.Macro.Expansion
import RegisterMachine.Proofs.Macro.Lines
import RegisterMachine.Proofs.Text.Thinning

/-!
# Origins of expanded lines

Every line of an expanded file remembers a line of the file as it was written. The number goes
through the blanking of definitions, which keeps line feeds, through the dropping of blank lines and
the expansion of calls, and through the cutting of the written text into lines; it is right at the
end (`MacroTable.exists_of_mem_codeLines`), and the lines come in order.
-/

namespace RegisterMachine

theorem Segment.thins_blanked (seg : Segment) : Text.Thins seg.blanked seg.source := by
  cases seg with
  | text s => exact .refl s
  | definition s _ => exact Text.thins_filter s

theorem Segment.thins_flatMap_blanked (segs : List Segment) :
    Text.Thins (MacroTable.blankedText segs) (segs.flatMap source) := by
  induction segs with
  | nil => exact .refl []
  | cons seg segs ih => exact seg.thins_blanked.append ih

theorem thins_blankedText {file s : Text} {segs : List Segment} (h : segments file s = .ok segs) :
    Text.Thins (MacroTable.blankedText segs) s := by
  rw [← flatMap_source_of_segments h]
  exact Segment.thins_flatMap_blanked segs

namespace MacroTable

/-- The text is the code of the line `r` or, where `r` calls a macro, of one of the lines that the
call stands for. -/
def Yields (table : MacroTable) (r text : Text) : Prop :=
  match table.call? r with
  | none => Line.classify r = .instruction text
  | some (d, args) =>
    ∃ ls, table.expandCall (table.length + 1) [] d args = .ok ls ∧
      ∃ l ∈ ls, Line.classify l = .instruction text

variable {table : MacroTable} {path : Text} {lines ls : List (Nat × Text)} {f g : SourceFile}

theorem yields_of_expandLine {r l text : Text} {es : List Text} (h : table.expandLine r = .ok es)
    (hl : l ∈ es) (hcode : Line.classify l = .instruction text) : table.Yields r text := by
  unfold expandLine at h
  unfold Yields
  cases hcall : table.call? r with
  | none =>
    rw [hcall] at h
    cases h
    obtain rfl := List.mem_singleton.1 hl
    exact hcode
  | some call =>
    rw [hcall] at h
    exact ⟨es, h, l, hl, hcode⟩

/-- The numbered lines that one numbered line stands for; a blank one stands for none. -/
def StandsFor (table : MacroTable) (line : Nat × Text) (part : List (Nat × Text)) : Prop :=
  part = [] ∨ Text.trim line.2 ≠ [] ∧
    ∃ es, table.expandLine line.2 = .ok es ∧ part = es.map (line.1, ·)

theorem exists_forall₂_of_expandLines (h : table.expandLines path lines = .ok ls) :
    ∃ parts, List.Forall₂ table.StandsFor lines parts ∧ ls = parts.flatten := by
  obtain ⟨parts, hparts, h⟩ := bind_eq_ok_iff.1 h
  refine ⟨parts, (forall₂_of_mapM_eq_ok hparts).imp ?_, (pure_eq_ok_iff.1 h).symm⟩
  rintro ⟨n, line⟩ part hpart
  dsimp only at hpart
  split at hpart
  · cases hpart
    exact .inl rfl
  · rename_i hblank
    split at hpart <;> cases hpart
    exact .inr ⟨by simpa using hblank, _, by assumption, rfl⟩

theorem StandsFor.exists_of_mem {line x : Nat × Text} {part : List (Nat × Text)}
    (h : table.StandsFor line part) (hx : x ∈ part) :
    x.1 = line.1 ∧ Text.trim line.2 ≠ [] ∧ ∃ es, table.expandLine line.2 = .ok es ∧ x.2 ∈ es := by
  rcases h with rfl | ⟨hblank, es, hes, rfl⟩
  · cases hx
  · obtain ⟨l, hl, rfl⟩ := List.mem_map.1 hx
    exact ⟨rfl, hblank, es, hes, hl⟩

theorem exists_of_mem_expandLines (h : table.expandLines path lines = .ok ls) {n : Nat} {l : Text}
    (hl : (n, l) ∈ ls) :
    ∃ r es, (n, r) ∈ lines ∧ Text.trim r ≠ [] ∧ table.expandLine r = .ok es ∧ l ∈ es := by
  obtain ⟨parts, hparts, rfl⟩ := exists_forall₂_of_expandLines h
  obtain ⟨part, hpart, hl⟩ := List.mem_flatten.1 hl
  obtain ⟨⟨m, r⟩, hr, hstands⟩ := exists_mem_of_forall₂ hparts hpart
  obtain ⟨rfl, hblank, es, hes, hmem⟩ := hstands.exists_of_mem hl
  exact ⟨r, es, hr, hblank, hes, hmem⟩

/-- Lines stay in order, and those that one line stands for share its number. -/
theorem pairwise_expandLines (h : table.expandLines path lines = .ok ls)
    (hlines : lines.Pairwise (·.1 < ·.1)) : ls.Pairwise (·.1 ≤ ·.1) := by
  obtain ⟨parts, hparts, rfl⟩ := exists_forall₂_of_expandLines h
  clear h
  induction hparts with
  | nil => exact .nil
  | @cons line part lines parts hstands hparts ih =>
    obtain ⟨hline, hlines⟩ := List.pairwise_cons.1 hlines
    rw [List.flatten_cons, List.pairwise_append]
    refine ⟨?_, ih hlines, ?_⟩
    · apply List.pairwise_of_forall_mem_list
      intro x hx y hy
      rw [(hstands.exists_of_mem hx).1, (hstands.exists_of_mem hy).1]
    · intro x hx y hy
      obtain ⟨part', hpart', hy⟩ := List.mem_flatten.1 hy
      obtain ⟨line', hline', hstands'⟩ := exists_mem_of_forall₂ hparts hpart'
      rw [(hstands.exists_of_mem hx).1, (hstands'.exists_of_mem hy).1]
      exact Nat.le_of_lt (hline line' hline')

/-- The numbered lines of a file whose definitions are blanked out. -/
def blankedLines (segs : List Segment) : List (Nat × Text) :=
  SourceFile.numberedLines { path := [], text := blankedText segs }

theorem exists_of_expandFile (h : table.expandFile f = .ok g) :
    ∃ segs ls, segmentsOf f = .ok segs ∧
      table.expandLines f.path (blankedLines segs) = .ok ls ∧
      g = { path := f.path, text := Text.unlines (ls.map (·.2)), origins := ls.map (·.1) } := by
  obtain ⟨segs, hsegs, h⟩ := bind_eq_ok_iff.1 h
  obtain ⟨ls, hls, h⟩ := bind_eq_ok_iff.1 h
  exact ⟨segs, ls, hsegs, hls, (pure_eq_ok_iff.1 h).symm⟩

theorem newline_notMem_of_expandLines {segs : List Segment} (htable : table.HasLines)
    (h : table.expandLines path (blankedLines segs) = .ok ls) : ∀ l ∈ ls.map (·.2), '\n' ∉ l := by
  intro l hl
  obtain ⟨⟨n, l⟩, hnl, rfl⟩ := List.mem_map.1 hl
  obtain ⟨r, es, hr, -, hes, hmem⟩ := exists_of_mem_expandLines h hnl
  obtain ⟨j, -, hj⟩ := SourceFile.mem_numberedLines_iff.1 hr
  have hr := Text.newline_notMem_of_mem_lines (List.mem_of_getElem? hj)
  exact newline_notMem_of_expandLine htable hr hes l hmem

/-- Where an instruction of an expanded file comes from. -/
theorem exists_of_mem_codeLines {segs : List Segment} (htable : table.HasLines)
    (h : table.expandLines path (blankedLines segs) = .ok ls)
    (hg : g = { path, text := Text.unlines (ls.map (·.2)), origins := ls.map (·.1) })
    {c : CodeLine} (hc : c ∈ g.codeLines) :
    ∃ k s, c.number = k + 1 ∧ ls[k]? = some (g.origin c.number, s) ∧
      Line.classify s = .instruction c.code := by
  obtain ⟨hmem, hcode⟩ := CodeLine.exists_mem_of_mem_among hc
  obtain ⟨k, hk, hraw⟩ := SourceFile.mem_numberedLines_iff.1 hmem
  have hlines : Text.lines g.text = (ls.map (·.2)).map Text.dropReturn := by
    rw [hg]
    exact Text.lines_unlines (newline_notMem_of_expandLines htable h)
  rw [hlines, List.map_map, List.getElem?_map, Option.map_eq_some_iff] at hraw
  obtain ⟨⟨n, s⟩, hs, hdrop⟩ := hraw
  refine ⟨k, s, hk, ?_, ?_⟩
  · rw [hs, hk, hg]
    simp [SourceFile.origin, hs]
  · rw [← hdrop, Function.comp_apply, Line.classify_dropReturn] at hcode
    exact hcode

end MacroTable

end RegisterMachine
