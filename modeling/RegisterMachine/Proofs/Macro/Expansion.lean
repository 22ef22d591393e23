import RegisterMachine.Proofs.Assembly.Statements
import RegisterMachine.Proofs.Macro.Definition

/-!
# Expanded sources

Files that link hold no macro definitions, as the assembler refuses the line that opens one
(`not_opensDefinition_of_link`). Expanding them once more therefore finds no macro and no call, and
drops blank lines only (`expandMacros_of_forall`): the sources that expansion writes compile to the
program of the sources that it read.
-/

namespace RegisterMachine

section Lines

variable {paths : List Text} {files : List SourceFile} {u u' : CompilationUnit} {number : Nat}
  {raw name : Text} {lines : List (Nat × Text)}

theorem CompilationUnit.Takes.isSymbolName (h : u.Takes paths number raw u')
    (hraw : Line.classify raw = .label name) : isSymbolName name := by
  cases h with
  | skip h => rcases h with h | h <;> rw [hraw] at h <;> cases h
  | label h hname =>
    rw [hraw] at h
    cases h
    exact hname
  | importOf h | function h | plain h | stringLoad h => rw [hraw] at h; cases h

theorem SourceFile.exists_mem_numberedLines {f : SourceFile} (h : raw ∈ Text.lines f.text) :
    ∃ number, (number, raw) ∈ f.numberedLines := by
  rw [← f.map_snd_numberedLines] at h
  obtain ⟨⟨number, _⟩, hmem, rfl⟩ := List.mem_map.1 h
  exact ⟨number, hmem⟩

theorem CodeLine.mem_among_of_classify {code : Text} (hl : (number, raw) ∈ lines)
    (hraw : Line.classify raw = .instruction code) : ⟨number, raw, code⟩ ∈ among lines := by
  refine List.mem_filterMap.2 ⟨(number, raw), hl, ?_⟩
  simp [hraw, Line.code?]

/-- What links has no line that the assembler refuses. -/
theorem not_isRefused_of_link {p : Program} (h : link files = .ok p) :
    ∀ f ∈ files, ∀ l ∈ Text.lines f.text, ¬ Line.IsRefused l := by
  intro f hf raw hraw hrefused
  obtain ⟨units, code, hunits, -, hcode, -⟩ := link_eq_ok_iff.1 h
  have hcollects := CompilationUnit.collects_of_collectAll hunits
  obtain ⟨number, hline⟩ := SourceFile.exists_mem_numberedLines hraw
  rcases hrefused with ⟨name, hlabel, hname⟩ | ⟨code, args, hinstr, htokens⟩
  · -- the collection of symbols refuses the name
    obtain ⟨u, -, hu⟩ := exists_mem_of_forall₂ hcollects.collect_eq.flip hf
    obtain ⟨_, _, htakes⟩ := (CompilationUnit.reads_of_collect hu).exists_takes hline
    have hsymbol := htakes.isSymbolName hlabel
    rw [hname] at hsymbol
    cases hsymbol
  · -- the encoding refuses the mnemonic
    obtain ⟨i, hi⟩ := List.mem_iff_getElem?.1 hf
    have hmem : (i, ⟨number, raw, code⟩) ∈ linkedLines files :=
      mem_linkedLines_iff.2 ⟨f, hi, CodeLine.mem_among_of_classify hline hinstr⟩
    obtain ⟨x, -, _, u, -, -, hx⟩ := exists_mem_of_forall₂ (hcollects.encodes hcode).flip hmem
    have hencode := Encoding.encodeLine_of_encodeCodeLine hx
    have hnone : Opcode.ofMnemonic? MacroDef.keyword = none := by decide
    simp only [Encoding.encodeLine, htokens, hnone] at hencode
    cases hencode

/-- What links opens no definition. -/
theorem not_opensDefinition_of_link {p : Program} (h : link files = .ok p) :
    ∀ f ∈ files, ∀ l ∈ Text.lines f.text, ¬ Line.OpensDefinition l :=
  fun f hf l hl hopens => not_isRefused_of_link h f hf l hl hopens.isRefused

end Lines

/-- Whether a line is left out by expansion. -/
def Text.isBlankLine (line : Text) : Bool :=
  (Text.trim line).isEmpty

/-- What expansion makes of a file without definitions if there are no macros. -/
def SourceFile.withoutBlankLines (f : SourceFile) : SourceFile :=
  let kept := f.numberedLines.filter fun line => !Text.isBlankLine line.2
  { path := f.path, text := Text.unlines (kept.map (·.2)), origins := kept.map (·.1) }

section Expansion

variable {files : List SourceFile} {f : SourceFile}

theorem MacroTable.expandLine_nil (line : Text) : expandLine [] line = .ok [line] := by
  have hcall : call? [] line = none := by
    unfold call?
    cases MacroCall.parse? line <;> rfl
  rw [expandLine, hcall]

theorem MacroTable.expandLines_nil (path : Text) (lines : List (Nat × Text)) :
    expandLines [] path lines = .ok (lines.filter fun line => !Text.isBlankLine line.2) := by
  unfold expandLines
  simp only [expandLine_nil]
  refine bind_eq_ok_iff.2
    ⟨lines.map fun line => if Text.isBlankLine line.2 then [] else [line], ?_, ?_⟩
  · refine mapM_eq_ok_of_forall fun line _ => ?_
    rw [Text.isBlankLine]
    split <;> rfl
  · refine congrArg Except.ok ?_
    induction lines with
    | nil => rfl
    | cons line lines ih => cases h : Text.isBlankLine line.2 <;> simp [h, ih]

theorem MacroTable.expandFile_of_forall (h : ∀ l ∈ Text.lines f.text, ¬ Line.OpensDefinition l) :
    expandFile [] f = .ok f.withoutBlankLines := by
  obtain ⟨segs, hsegs, -, hblanked⟩ := segments_of_forall f.path h
  have hsegments : segmentsOf f = .ok segs := by rw [segmentsOf, hsegs]
  refine bind_eq_ok_iff.2 ⟨segs, hsegments, ?_⟩
  refine bind_eq_ok_iff.2 ⟨_, expandLines_nil _ _, ?_⟩
  rw [blankedText, hblanked]
  rfl

theorem MacroTable.ofFiles_of_forall
    (h : ∀ f ∈ files, ∀ l ∈ Text.lines f.text, ¬ Line.OpensDefinition l) :
    ofFiles files = .ok [] := by
  induction files with
  | nil => rfl
  | cons f files ih =>
    obtain ⟨hf, hfiles⟩ := List.forall_mem_cons.1 h
    obtain ⟨segs, hsegs, hnone, -⟩ := segments_of_forall f.path hf
    have hsegments : segmentsOf f = .ok segs := by rw [segmentsOf, hsegs]
    unfold ofFiles
    rw [List.foldlM_cons]
    refine bind_eq_ok_iff.2 ⟨[], bind_eq_ok_iff.2 ⟨segs, hsegments, ?_⟩, ih hfiles⟩
    rw [hnone]
    rfl

/-- Files without definitions lose their blank lines. -/
theorem expandMacros_of_forall
    (h : ∀ f ∈ files, ∀ l ∈ Text.lines f.text, ¬ Line.OpensDefinition l) :
    expandMacros files = .ok (files.map (·.withoutBlankLines)) := by
  refine bind_eq_ok_iff.2 ⟨[], MacroTable.ofFiles_of_forall h, ?_⟩
  exact mapM_eq_ok_of_forall fun f hf => MacroTable.expandFile_of_forall (h f hf)

theorem Line.classify_dropReturn (raw : Text) : classify (Text.dropReturn raw) = classify raw := by
  unfold classify
  rw [Text.trim_dropReturn]

theorem Line.isBlankLine_of_isStatement {raw : Text} (h : (classify raw).isStatement) :
    Text.isBlankLine raw = false := by
  unfold classify at h
  split at h
  · cases h
  · rename_i hraw
    simp [Text.isBlankLine, hraw]
  · rename_i hraw
    simp [Text.isBlankLine, hraw]

theorem SourceFile.statements_withoutBlankLines (f : SourceFile) :
    f.withoutBlankLines.statements = f.statements := by
  have hkept : (f.numberedLines.filter fun line => !Text.isBlankLine line.2).map (·.2) =
      (Text.lines f.text).filter fun line => !Text.isBlankLine line := by
    rw [← f.map_snd_numberedLines, List.filter_map]
    rfl
  have hlines : Text.lines f.withoutBlankLines.text =
      ((Text.lines f.text).filter fun line => !Text.isBlankLine line).map Text.dropReturn := by
    rw [withoutBlankLines, ← hkept]
    refine Text.lines_unlines fun l hl => ?_
    rw [hkept] at hl
    exact Text.newline_notMem_of_mem_lines (List.mem_filter.1 hl).1
  have hclassify : Line.classify ∘ Text.dropReturn = Line.classify :=
    funext Line.classify_dropReturn
  rw [statements, statements, hlines, List.map_map, hclassify, List.filter_map, List.filter_map,
    List.filter_filter]
  congr 1
  refine List.filter_congr fun raw _ => ?_
  rw [Function.comp_apply]
  cases h : (Line.classify raw).isStatement with
  | false => rfl
  | true => rw [Line.isBlankLine_of_isStatement h]; rfl

end Expansion

/-- Files that link compile as well, to the same program. -/
theorem exists_compile_of_link {files : List SourceFile} {p : Program} (h : link files = .ok p) :
    ∃ q, compile files = .ok q ∧ q.SameExceptLines p := by
  have hcontents : contents (files.map (·.withoutBlankLines)) = contents files := by
    rw [contents, List.map_map]
    refine List.map_congr_left fun f _ => ?_
    rw [Function.comp_apply, SourceFile.statements_withoutBlankLines]
    rfl
  obtain ⟨q, hq, hsame⟩ := link_congr_contents hcontents h
  refine ⟨q, bind_eq_ok_iff.2 ⟨_, ?_, hq⟩, hsame⟩
  exact expandMacros_of_forall (not_opensDefinition_of_link h)

/-- The sources that expansion writes compile to the program of the sources that it read. -/
theorem exists_compile_of_expandMacros {files : List SourceFile} {p : Program}
    (h : compile files = .ok p) :
    ∃ expanded q, expandMacros files = .ok expanded ∧ compile expanded = .ok q ∧
      q.SameExceptLines p := by
  obtain ⟨expanded, hexpanded, hlink⟩ := bind_eq_ok_iff.1 h
  obtain ⟨q, hq, hsame⟩ := exists_compile_of_link hlink
  exact ⟨expanded, q, hexpanded, hq, hsame⟩

/-- Two calls of a macro, the first with a blank argument, which leaves a blank line behind. -/
theorem exists_compile_of_expandMacros_calls :
    ∃ files p expanded q, compile files = .ok p ∧ expandMacros files = .ok expanded ∧
      expanded.map (·.text) = ["ldstr R0, \"a;b\"\n\nldstr R0, \"a;b\"\nret\n".toList] ∧
      compile expanded = .ok q ∧ q.SameExceptLines p ∧ q.strings = #["a;b".toList] := by
  let files : List SourceFile :=
    [{ path := "f.s".toList
       text :=
        "macro say(text, code) ".toList ++ '{' :: "\nldstr R0, text\ncode\n".toList ++
          '}' :: "\nsay(\"a;b\", ) ; call\nsay(\"a;b\", ret)".toList }]
  let p : Program :=
    { instructions :=
        #[⟨.ldstr, [.register 0, .string 0]⟩, ⟨.ldstr, [.register 0, .string 0]⟩, ⟨.ret, []⟩]
      strings := #["a;b".toList]
      locations :=
        #[⟨"f.s".toList, 5, "ldstr R0, \"a;b\"".toList⟩,
          ⟨"f.s".toList, 6, "ldstr R0, \"a;b\"".toList⟩, ⟨"f.s".toList, 6, "ret".toList⟩] }
  have hp : compile files = .ok p := by decide +kernel
  obtain ⟨expanded, q, hexpanded, hq, hsame⟩ := exists_compile_of_expandMacros hp
  have htext : (expandMacros files).map (·.map (·.text)) =
      .ok ["ldstr R0, \"a;b\"\n\nldstr R0, \"a;b\"\nret\n".toList] := by
    decide +kernel
  rw [hexpanded] at htext
  exact ⟨files, p, expanded, q, hp, hexpanded, Except.ok.inj htext, hq, hsame, hsame.strings⟩

end RegisterMachine
