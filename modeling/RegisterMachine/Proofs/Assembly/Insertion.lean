import RegisterMachine.Proofs.Assembly.Locations
import RegisterMachine.Proofs.Macro.Insertion

/-!
# Lines without meaning

A blank line or a comment between two lines of a file changes nothing but the numbers of the lines
behind it (`exists_compile_of_insert`). Within a definition it is part of the body; elsewhere it
opens no definition and calls no macro, and the files that compile have no line that it could
complete.
-/

namespace RegisterMachine

namespace Line

variable {raw s v : Text}

theorem stripComment_append (hv : ∀ c ∈ v, Text.isBlank c) :
    Text.stripComment (v ++ s) = v ++ Text.stripComment s := by
  induction v with
  | nil => rfl
  | cons c v ih =>
    obtain ⟨hc, hv⟩ := List.forall_mem_cons.1 hv
    have hquote : c ≠ '"' := by
      rintro rfl
      exact absurd hc (by decide)
    have hsemicolon : c ≠ ';' := by
      rintro rfl
      exact absurd hc (by decide)
    have hih := ih hv
    rw [Text.stripComment] at hih ⊢
    simp [Text.stripComment.go, hquote, hsemicolon, hih]

theorem ident?_keyword_append (h : ∀ c ∈ s.head?, Text.isBlank c) :
    Text.ident? (MacroDef.keyword ++ s) = some (MacroDef.keyword, s) := by
  have hs : s.takeWhile Text.isIdentRest = [] ∧ s.dropWhile Text.isIdentRest = s := by
    cases s with
    | nil => exact ⟨rfl, rfl⟩
    | cons c s =>
      have hc : ¬ Text.isIdentRest c := by
        intro hc
        have hfalse : Text.isBlank c = false := Text.isBlank_eq_false_of_isAlphanum (by
          simp only [Text.isIdentRest, Bool.or_eq_true] at hc ⊢
          exact .inl hc)
        rw [h c rfl] at hfalse
        cases hfalse
      exact ⟨List.takeWhile_cons_of_neg hc, List.dropWhile_cons_of_neg hc⟩
  have hkeyword : MacroDef.keyword = 'm' :: MacroDef.keyword.tail := rfl
  have hstart : Text.isIdentStart 'm' := by decide
  have htail : MacroDef.keyword.tail.all Text.isIdentRest := by decide
  have hrest := List.all_eq_true.1 htail
  rw [hkeyword, List.cons_append, Text.ident?, if_pos hstart, List.takeWhile_append_of_pos hrest,
    List.dropWhile_append_of_pos hrest, hs.1, hs.2, List.append_nil]

/-- A line that opens a definition is no call: no parenthesis follows the keyword. -/
theorem OpensDefinition.parse?_eq_none (h : OpensDefinition raw) :
    MacroCall.parse? raw = none := by
  obtain ⟨tail, htail, hblank, hstart⟩ := h
  obtain ⟨v, hraw, hv⟩ := Text.exists_append_trimStart raw
  -- what the call is read from
  obtain ⟨r, rest, htrim, rfl⟩ : ∃ r rest,
      Text.trim (Text.stripComment raw) = MacroDef.keyword ++ r ∧ tail = r ++ rest := by
    obtain ⟨comment, hcode⟩ := Text.isPrefix_stripComment tail
    obtain ⟨blanks, hstrip, -⟩ :=
      Text.exists_append_dropEndWhile Text.isBlank (Text.stripComment tail)
    refine ⟨Text.trimEnd (Text.stripComment tail), blanks ++ comment, ?_, ?_⟩
    · rw [hraw, htail, stripComment_append hv, stripComment_keyword_append, Text.trim,
        Text.trimStart_append hv]
      exact trimEnd_keyword_append
    · rw [Text.trimEnd, ← List.append_assoc, ← hstrip, hcode]
  have hident := ident?_keyword_append (isBlank_of_head? hblank)
  unfold MacroCall.parse?
  rw [htrim, hident, Option.bind_eq_bind, Option.bind_some]
  dsimp only
  split
  · rename_i args hargs
    have hparen := hstart '(' (by
      rw [Text.dropWhile_append_of_ne_nil (by simp [hargs]), hargs]
      rfl)
    exact absurd hparen (by decide)
  · rfl

theorem isStatement_ofCode (code : Text) : (ofCode code).isStatement := by
  unfold ofCode
  split
  · rfl
  · split
    · rfl
    · split <;> rfl

theorem not_opensDefinition_of_isStatement (h : (classify raw).isStatement = false) :
    ¬ OpensDefinition raw := by
  intro hopens
  obtain ⟨tail, -, hraw, -⟩ := hopens.exists_ofCode
  rw [hraw, isStatement_ofCode] at h
  cases h

theorem parse?_eq_none_of_isStatement (h : (classify raw).isStatement = false) :
    MacroCall.parse? raw = none := by
  obtain ⟨before, after, hraw, hbefore, hafter⟩ := Text.exists_append_trim raw
  have hnothing : ∀ c ∈ Text.stripComment raw, Text.isBlank c := by
    unfold classify at h
    split at h
    · rename_i htrim
      rw [htrim, List.append_nil] at hraw
      intro c hc
      have hc := (Text.isPrefix_stripComment raw).subset hc
      rw [hraw] at hc
      exact (List.mem_append.1 hc).elim (hbefore c) (hafter c)
    · rename_i t htrim
      rw [htrim, List.append_assoc] at hraw
      rw [hraw, stripComment_append hbefore]
      intro c hc
      refine hbefore c ?_
      simpa [Text.stripComment, Text.stripComment.go] using hc
    · rw [isStatement_ofCode] at h
      cases h
  have htrim : Text.trim (Text.stripComment raw) = [] := by
    rw [Text.trim, Text.trimStart, List.dropWhile_eq_nil_iff.2 hnothing]
    rfl
  unfold MacroCall.parse?
  rw [htrim]
  rfl

end Line

theorem MacroTable.expandLine_of_parse? {table : MacroTable} {raw : Text}
    (h : MacroCall.parse? raw = none) : table.expandLine raw = .ok [raw] := by
  have hcall : table.call? raw = none := by
    unfold call?
    rw [h]
    rfl
  rw [expandLine, hcall]

/-- The numbered lines that say something. -/
def statementLines (ls : List (Nat × Text)) : List (Nat × Text) :=
  ls.filter fun l => (Line.classify l.2).isStatement

/-- The file with the given lines, each of which comes from the line with its number. -/
def SourceFile.ofLines (path : Text) (ls : List (Nat × Text)) : SourceFile where
  path := path
  text := Text.unlines (ls.map (·.2))
  origins := ls.map (·.1)

section Lines

variable {path : Text} {ls ls' : List (Nat × Text)}

theorem statementLines_append :
    statementLines (ls ++ ls') = statementLines ls ++ statementLines ls' :=
  List.filter_append ls ls'

theorem statementLines_eq_nil (h : ∀ l ∈ ls, (Line.classify l.2).isStatement = false) :
    statementLines ls = [] :=
  List.filter_eq_nil_iff.2 fun l hl => by simp [h l hl]

theorem statementLines_map (φ : Nat → Nat) :
    statementLines (ls.map (Prod.map φ id)) = (statementLines ls).map (Prod.map φ id) :=
  List.filter_map

theorem SourceFile.lines_ofLines (h : ∀ l ∈ ls.map (·.2), '\n' ∉ l) :
    Text.lines (ofLines path ls).text = ls.map fun l => Text.dropReturn l.2 := by
  rw [ofLines, Text.lines_unlines h, List.map_map]
  rfl

theorem SourceFile.statements_ofLines (h : ∀ l ∈ ls.map (·.2), '\n' ∉ l) :
    (ofLines path ls).statements = (statementLines ls).map fun l => Line.classify l.2 := by
  have hclassify : Line.classify ∘ (fun l : Nat × Text => Text.dropReturn l.2) =
      fun l => Line.classify l.2 :=
    funext fun l => Line.classify_dropReturn l.2
  rw [statements, lines_ofLines h, List.map_map, hclassify, List.filter_map]
  rfl

theorem SourceFile.locations_ofLines (h : ∀ l ∈ ls.map (·.2), '\n' ∉ l) :
    (ofLines path ls).locations = (statementLines ls).filterMap fun l =>
      (Line.classify l.2).code?.map fun code => ⟨path, l.1, code⟩ := by
  let place (l : Nat × Text) : Option SourceLocation :=
    (Line.classify l.2).code?.map fun code => ⟨path, l.1, code⟩
  -- the number of a line leads to the number that it remembers
  have horigins : (ofLines path ls).numberedLines.map
      (fun line => ((ofLines path ls).origin line.1, line.2)) =
        ls.map fun l => (l.1, Text.dropReturn l.2) := by
    apply List.ext_getElem?
    intro k
    rw [numberedLines, lines_ofLines h]
    cases hk : ls[k]? with
    | none => simp [List.getElem?_zipIdx, hk]
    | some l => simp [List.getElem?_zipIdx, hk, origin, ofLines, Nat.add_comm 1]
  have hlocations : (ofLines path ls).locations = ((ofLines path ls).numberedLines.map
      (fun line => ((ofLines path ls).origin line.1, line.2))).filterMap place := by
    rw [locations, codeLines, List.map_filterMap, List.filterMap_map]
    refine List.filterMap_congr fun line _ => ?_
    rw [Option.map_map]
    rfl
  rw [hlocations, horigins, List.filterMap_map, statementLines, List.filterMap_filter]
  refine List.filterMap_congr fun l _ => ?_
  rw [Function.comp_apply]
  unfold place
  rw [Line.classify_dropReturn]
  cases hl : (Line.classify l.2).isStatement with
  | true => rfl
  | false => rw [Line.code?_eq_none_of_isStatement hl]; rfl

end Lines

/-- The number that a line gets when another one is put behind line `n`. -/
def shiftLine (n line : Nat) : Nat :=
  if n < line then line + 1 else line

/-- The location when a line is put behind line `n` of its file. -/
def SourceLocation.shift (n : Nat) (l : SourceLocation) : SourceLocation :=
  { l with line := shiftLine n l.line }

namespace MacroTable

variable {table : MacroTable} {path raw x y line : Text} {n : Nat} {es : List Text}
  {lines lines' ls ls' : List (Nat × Text)} {segs segs' : List Segment}

theorem expandLines_append (h : table.expandLines path lines = .ok ls)
    (h' : table.expandLines path lines' = .ok ls') :
    table.expandLines path (lines ++ lines') = .ok (ls ++ ls') := by
  obtain ⟨parts, hparts, h⟩ := bind_eq_ok_iff.1 h
  obtain ⟨parts', hparts', h'⟩ := bind_eq_ok_iff.1 h'
  obtain rfl := pure_eq_ok_iff.1 h
  obtain rfl := pure_eq_ok_iff.1 h'
  refine bind_eq_ok_iff.2 ⟨parts ++ parts', ?_, by rw [List.flatten_append]; rfl⟩
  rw [List.mapM_append]
  exact bind_eq_ok_iff.2 ⟨parts, hparts, bind_eq_ok_iff.2 ⟨parts', hparts', rfl⟩⟩

theorem exists_of_expandLines_append (h : table.expandLines path (lines ++ lines') = .ok ls) :
    ∃ as bs, table.expandLines path lines = .ok as ∧ table.expandLines path lines' = .ok bs ∧
      ls = as ++ bs := by
  obtain ⟨parts, hparts, h⟩ := bind_eq_ok_iff.1 h
  rw [List.mapM_append] at hparts
  obtain ⟨as, has, hparts⟩ := bind_eq_ok_iff.1 hparts
  obtain ⟨bs, hbs, hparts⟩ := bind_eq_ok_iff.1 hparts
  obtain rfl := pure_eq_ok_iff.1 hparts
  obtain rfl := pure_eq_ok_iff.1 h
  exact ⟨as.flatten, bs.flatten, bind_eq_ok_iff.2 ⟨as, has, rfl⟩, bind_eq_ok_iff.2 ⟨bs, hbs, rfl⟩,
    List.flatten_append⟩

theorem expandLines_cons {numbered : Nat × Text}
    (h : table.expandLines path [numbered] = .ok ls) (h' : table.expandLines path lines = .ok ls') :
    table.expandLines path (numbered :: lines) = .ok (ls ++ ls') :=
  expandLines_append h h'

theorem exists_of_expandLines_cons {numbered : Nat × Text}
    (h : table.expandLines path (numbered :: lines) = .ok ls) :
    ∃ as bs, table.expandLines path [numbered] = .ok as ∧ table.expandLines path lines = .ok bs ∧
      ls = as ++ bs := by
  rw [← List.singleton_append] at h
  exact exists_of_expandLines_append h

theorem expandLines_of_isBlankLine (h : Text.isBlankLine raw) :
    table.expandLines path [(n, raw)] = .ok [] := by
  have hraw : Text.trim raw = [] := List.isEmpty_iff.1 h
  simp [expandLines, hraw, bind, Except.bind, pure, Except.pure]

theorem expandLines_of_expandLine (h : Text.isBlankLine raw = false)
    (hes : table.expandLine raw = .ok es) :
    table.expandLines path [(n, raw)] = .ok (es.map (n, ·)) := by
  have hraw : Text.trim raw ≠ [] := List.isEmpty_eq_false_iff.1 h
  simp [expandLines, hraw, hes, bind, Except.bind, pure, Except.pure]

theorem exists_of_expandLines_singleton (h : table.expandLines path [(n, raw)] = .ok ls) :
    Text.isBlankLine raw ∧ ls = [] ∨
      Text.isBlankLine raw = false ∧ ∃ es, table.expandLine raw = .ok es ∧ ls = es.map (n, ·) := by
  cases hblank : Text.isBlankLine raw with
  | true =>
    rw [expandLines_of_isBlankLine hblank] at h
    exact .inl ⟨rfl, (Except.ok.inj h).symm⟩
  | false =>
    cases hes : table.expandLine raw with
    | error =>
      have hraw : Text.trim raw ≠ [] := List.isEmpty_eq_false_iff.1 hblank
      simp [expandLines, hraw, hes, bind, Except.bind] at h
    | ok es =>
      rw [expandLines_of_expandLine hblank hes] at h
      exact .inr ⟨rfl, es, rfl, (Except.ok.inj h).symm⟩

/-- The numbers of lines go through expansion as they are. -/
theorem expandLines_map (φ : Nat → Nat) (h : table.expandLines path lines = .ok ls) :
    table.expandLines path (lines.map (Prod.map φ id)) = .ok (ls.map (Prod.map φ id)) := by
  induction lines generalizing ls with
  | nil =>
    cases h
    rfl
  | cons line lines ih =>
    obtain ⟨n, raw⟩ := line
    obtain ⟨as, bs, has, hbs, rfl⟩ := exists_of_expandLines_cons h
    rw [List.map_append, List.map_cons, Prod.map_apply, id_eq]
    refine expandLines_cons ?_ (ih hbs)
    rcases exists_of_expandLines_singleton has with ⟨hblank, rfl⟩ | ⟨hblank, es, hes, rfl⟩
    · exact expandLines_of_isBlankLine hblank
    · rw [expandLines_of_expandLine hblank hes, List.map_map]
      rfl

/-- A line that says nothing expands to nothing that is said. -/
theorem exists_expandLines_of_isStatement (table : MacroTable) (path : Text) (n : Nat)
    (h : (Line.classify raw).isStatement = false) :
    ∃ ls, table.expandLines path [(n, raw)] = .ok ls ∧
      ∀ l ∈ ls, (Line.classify l.2).isStatement = false := by
  cases hblank : Text.isBlankLine raw with
  | true => exact ⟨[], expandLines_of_isBlankLine hblank, by simp⟩
  | false =>
    have hes : table.expandLine raw = .ok [raw] :=
      expandLine_of_parse? (Line.parse?_eq_none_of_isStatement h)
    exact ⟨_, expandLines_of_expandLine hblank hes, by simpa using h⟩

/-- The lines of a text, numbered from `n + 1`. -/
def numberedFrom (n : Nat) (s : Text) : List (Nat × Text) :=
  ((Text.lines s).zipIdx (n + 1)).map Prod.swap

theorem blankedLines_eq : blankedLines segs = numberedFrom 0 (blankedText segs) :=
  rfl

theorem numberedFrom_append (hx : Text.EndsLine x) :
    numberedFrom n (x ++ y) = numberedFrom n x ++ numberedFrom (n + x.count '\n') y := by
  unfold numberedFrom
  rw [Text.lines_append hx, List.zipIdx_append, List.map_append, Text.length_lines hx,
    Nat.add_right_comm]

theorem numberedFrom_append_newline (hline : '\n' ∉ line) :
    numberedFrom n (line ++ '\n' :: y) =
      (n + 1, Text.dropReturn line) :: numberedFrom (n + 1) y := by
  rw [numberedFrom, Text.lines_append_newline hline]
  rfl

/-- The lines in front keep their numbers. -/
theorem map_shiftLine_of_count (hx : Text.EndsLine x) (hn : x.count '\n' = n) :
    (numberedFrom 0 x).map (Prod.map (shiftLine n) id) = numberedFrom 0 x := by
  rw [numberedFrom, List.map_map]
  refine List.map_congr_left fun l hl => ?_
  have hle := (List.mem_zipIdx hl).2.1
  rw [Text.length_lines hx] at hle
  have hkeep : shiftLine n l.2 = l.2 := if_neg (by omega)
  rw [Function.comp_apply, Prod.map, Prod.fst_swap, Prod.snd_swap, hkeep]
  rfl

/-- The lines behind get the next numbers. -/
theorem map_shiftLine (n : Nat) (y : Text) :
    (numberedFrom n y).map (Prod.map (shiftLine n) id) = numberedFrom (n + 1) y := by
  rw [numberedFrom, numberedFrom, List.zipIdx_succ (i := n + 1), List.map_map, List.map_map]
  refine List.map_congr_left fun l hl => ?_
  have hle := (List.mem_zipIdx hl).1
  have hmove : shiftLine n l.2 = l.2 + 1 := if_pos (by omega)
  rw [Function.comp_apply, Prod.map, Prod.fst_swap, Prod.snd_swap, hmove]
  rfl

/-- With a line more that says nothing, what the others say comes under shifted numbers. -/
theorem exists_expandLines_insert {a : Text} (h : Segment.Inserts line a segs segs')
    (hline : '\n' ∉ line) (hsilent : (Line.classify line).isStatement = false)
    (hls : table.expandLines path (blankedLines segs) = .ok ls) :
    ∃ ls', table.expandLines path (blankedLines segs') = .ok ls' ∧
      statementLines ls' = (statementLines ls).map (Prod.map (shiftLine (a.count '\n')) id) := by
  obtain ⟨-, x, y, hsegs, hsegs', hcount, hx⟩ := h
  generalize a.count '\n' = n at hcount ⊢
  have hzero : 0 + x.count '\n' = n := by rw [Nat.zero_add, hcount]
  rw [blankedLines_eq, hsegs, numberedFrom_append hx, hzero] at hls
  obtain ⟨as, bs, has, hbs, rfl⟩ := exists_of_expandLines_append hls
  have has' : as.map (Prod.map (shiftLine n) id) = as := by
    have hmap := expandLines_map (shiftLine n) has
    rw [map_shiftLine_of_count hx hcount, has] at hmap
    exact (Except.ok.inj hmap).symm
  have hbs' := expandLines_map (shiftLine n) hbs
  rw [map_shiftLine] at hbs'
  rw [← Line.classify_dropReturn] at hsilent
  obtain ⟨ws, hws, hnothing⟩ := exists_expandLines_of_isStatement table path (n + 1) hsilent
  refine ⟨as ++ (ws ++ bs.map (Prod.map (shiftLine n) id)), ?_, ?_⟩
  · rw [blankedLines_eq, hsegs', numberedFrom_append hx, hzero, numberedFrom_append_newline hline]
    exact expandLines_append has (expandLines_cons hws hbs')
  · rw [statementLines_append, statementLines_append, statementLines_eq_nil hnothing,
      List.nil_append, statementLines_append, List.map_append, ← statementLines_map,
      ← statementLines_map, has']

/-- The lines of a text expand to themselves where they are no calls. -/
theorem mem_of_expandLines (h : table.expandLines path lines = .ok ls) (hraw : (n, raw) ∈ lines)
    (hblank : Text.isBlankLine raw = false) (hcall : MacroCall.parse? raw = none) :
    (n, raw) ∈ ls := by
  obtain ⟨before, after, rfl⟩ := List.append_of_mem hraw
  obtain ⟨as, bs, -, hbs, rfl⟩ := exists_of_expandLines_append h
  obtain ⟨cs, ds, hcs, -, rfl⟩ := exists_of_expandLines_cons hbs
  rw [expandLines_of_expandLine hblank (expandLine_of_parse? hcall)] at hcs
  obtain rfl := Except.ok.inj hcs
  simp

variable {f g : SourceFile}

/-- Where the expansion of a file opens no definition, the file opens none with its definitions
blanked out: such a line would expand to itself. -/
theorem not_opensDefinition_of_expandFile (htable : table.HasLines)
    (h : table.expandFile f = .ok g) (hg : ∀ l ∈ Text.lines g.text, ¬ Line.OpensDefinition l)
    (hsegs : segmentsOf f = .ok segs) :
    ∀ l ∈ Text.lines (blankedText segs), ¬ Line.OpensDefinition l := by
  intro l hl hopens
  obtain ⟨_, ls, hsegs', hls, rfl⟩ := exists_of_expandFile h
  obtain rfl := Except.ok.inj (hsegs.symm.trans hsegs')
  have hstatement : (Line.classify l).isStatement := by
    by_contra hfalse
    exact Line.not_opensDefinition_of_isStatement (Bool.eq_false_iff.2 hfalse) hopens
  obtain ⟨n, hn⟩ := SourceFile.exists_mem_numberedLines (f := ⟨[], blankedText segs, []⟩) hl
  have hmem := mem_of_expandLines hls hn (Line.isBlankLine_of_isStatement hstatement)
    hopens.parse?_eq_none
  refine hg (Text.dropReturn l) ?_ hopens.dropReturn
  rw [Text.lines_unlines (newline_notMem_of_expandLines htable hls), List.map_map]
  exact List.mem_map.2 ⟨(n, l), hmem, rfl⟩

theorem ofFiles_set {files : List SourceFile} {i : Nat} (hf : files[i]? = some f)
    (hsegs : segmentsOf f = .ok segs) (hsegs' : segmentsOf g = .ok segs')
    (h : segs'.filterMap Segment.definition? = segs.filterMap Segment.definition?) :
    ofFiles (files.set i g) = ofFiles files := by
  refine foldlM_set hf fun table => ?_
  rw [hsegs, hsegs']
  exact congrArg (fun ds => ds.foldlM insert table) h

/-- With a line more that says nothing, a file expands to one that says the same. -/
theorem exists_expandFile_insert {f' : SourceFile} {a : Text} (htable : table.HasLines)
    (h : table.expandFile f = .ok g) (hsegs : segmentsOf f = .ok segs) (hpath : f'.path = f.path)
    (hsegs' : segmentsOf f' = .ok segs') (hinserts : Segment.Inserts line a segs segs')
    (hline : '\n' ∉ line) (hsilent : (Line.classify line).isStatement = false) :
    ∃ g', table.expandFile f' = .ok g' ∧ g'.path = g.path ∧ g'.statements = g.statements ∧
      g'.locations = g.locations.map (·.shift (a.count '\n')) := by
  obtain ⟨_, ls, hsegs'', hls, hg⟩ := exists_of_expandFile h
  obtain rfl := Except.ok.inj (hsegs.symm.trans hsegs'')
  obtain ⟨ls', hls', hsame⟩ := exists_expandLines_insert hinserts hline hsilent hls
  have hg : g = .ofLines f.path ls := hg
  have hnewline := newline_notMem_of_expandLines htable hls
  have hnewline' := newline_notMem_of_expandLines htable hls'
  rw [← hpath] at hls'
  subst hg
  refine ⟨.ofLines f'.path ls', ?_, hpath, ?_, ?_⟩
  · exact bind_eq_ok_iff.2 ⟨segs', hsegs', bind_eq_ok_iff.2 ⟨ls', hls', rfl⟩⟩
  · rw [SourceFile.statements_ofLines hnewline, SourceFile.statements_ofLines hnewline', hsame,
      List.map_map]
    rfl
  · rw [SourceFile.locations_ofLines hnewline, SourceFile.locations_ofLines hnewline', hsame,
      List.filterMap_map, List.map_filterMap, hpath]
    refine List.filterMap_congr fun l _ => ?_
    rw [Option.map_map]
    rfl

end MacroTable

section Files

variable {files : List SourceFile} {f g : SourceFile} {i : Nat}

theorem contents_set {g' : SourceFile} (hg : files[i]? = some g) (hpath : g'.path = g.path)
    (hstatements : g'.statements = g.statements) : contents (files.set i g') = contents files := by
  rw [contents, List.map_set, hpath, hstatements]
  have hi : (contents files)[i]? = some (g.path, g.statements) := by
    rw [contents, List.getElem?_map, hg]
    rfl
  obtain ⟨hlt, heq⟩ := List.getElem?_eq_some_iff.1 hi
  rw [← heq]
  exact List.set_getElem_self hlt

theorem locations_of_link {p : Program} (h : link files = .ok p) :
    p.locations.toList = (files.map (·.locations)).flatten := by
  obtain ⟨units, code, hunits, -, hcode, rfl⟩ := link_eq_ok_iff.1 h
  rw [← List.flatMap_def, ← map_location_code hunits hcode]
  simp [Link.program]

/-- A blank line or a comment can be put between two lines of a file that do not stand in one
definition. The program stays the same, except that the lines of the file that are behind it get
the next numbers. -/
theorem exists_compile_of_insert {p : Program} {a b line : Text} {segs : List Segment}
    (h : compile files = .ok p) (hf : files[i]? = some f) (htext : f.text = a ++ b)
    (ha : Text.EndsLine a) (hsegs : MacroTable.segmentsOf f = .ok segs)
    (houtside : ∀ r ∈ Segment.ranges 0 segs, ¬ (r.1 < a.length ∧ a.length < r.2))
    (hline : '\n' ∉ line)
    (hsilent : Line.classify line = .blank ∨ Line.classify line = .comment) :
    ∃ q expanded, compile (files.set i { f with text := a ++ (line ++ '\n' :: b) }) = .ok q ∧
      q.instructions = p.instructions ∧ q.functions = p.functions ∧ q.labels = p.labels ∧
      q.strings = p.strings ∧ expandMacros files = .ok expanded ∧
      p.locations.toList = (expanded.map (·.locations)).flatten ∧
      q.locations.toList = ((expanded.map (·.locations)).modify i
        (List.map (·.shift (a.count '\n')))).flatten := by
  obtain ⟨expanded, hexpanded, hlink⟩ := bind_eq_ok_iff.1 h
  obtain ⟨table, htable, hfiles⟩ := bind_eq_ok_iff.1 hexpanded
  have hlines := MacroTable.hasLines_of_ofFiles htable
  obtain ⟨g, hg, hfg⟩ : ∃ g, expanded[i]? = some g ∧ table.expandFile f = .ok g := by
    have hforall := forall₂_of_mapM_eq_ok hfiles
    have hi : i < expanded.length := hforall.length_eq ▸ (List.getElem?_eq_some_iff.1 hf).1
    have hg := List.getElem?_eq_getElem hi
    exact ⟨expanded[i], hg, rel_of_getElem? hforall hf hg⟩
  have hnothing : (Line.classify line).isStatement = false := by
    rcases hsilent with hsilent | hsilent <;> rw [hsilent] <;> rfl
  have hopens := MacroTable.not_opensDefinition_of_expandFile hlines hfg
    (not_opensDefinition_of_link hlink g (List.mem_of_getElem? hg)) hsegs
  have hsegments := MacroTable.segmentsOf_eq_ok_iff.1 hsegs
  rw [htext] at hsegments
  obtain ⟨segs', hsegs', hinserts⟩ := exists_segments_insert (n := 0) (w := []) hsegments ha
    (Nat.zero_add _).symm houtside (by simp) hopens hline
    (Line.not_opensDefinition_of_isStatement hnothing)
  let f' : SourceFile := { f with text := a ++ (line ++ '\n' :: b) }
  have hsegs' : MacroTable.segmentsOf f' = .ok segs' := MacroTable.segmentsOf_eq_ok_iff.2 hsegs'
  obtain ⟨g', hg', hpath, hstatements, hlocations⟩ :=
    MacroTable.exists_expandFile_insert hlines hfg hsegs (rfl : f'.path = f.path) hsegs' hinserts
      hline hnothing
  obtain ⟨q, hq, hsame⟩ := link_congr_contents (contents_set hg hpath hstatements) hlink
  have htable' : MacroTable.ofFiles (files.set i f') = .ok table :=
    (MacroTable.ofFiles_set hf hsegs hsegs' hinserts.definitions).trans htable
  refine ⟨q, expanded, ?_, hsame.instructions, hsame.functions, hsame.labels, hsame.strings,
    hexpanded, locations_of_link hlink, ?_⟩
  · exact bind_eq_ok_iff.2
      ⟨_, bind_eq_ok_iff.2 ⟨table, htable', mapM_set hfiles hg'⟩, hq⟩
  · rw [locations_of_link hq, List.map_set, hlocations]
    have hi : (expanded.map (·.locations))[i]? = some g.locations := by
      rw [List.getElem?_map, hg]
      rfl
    rw [List.modify_eq_set_getElem?, hi]
    rfl

/-- A comment that looks like a definition, behind a definition over three lines and in front of a
call of the macro, which another file calls as well. -/
theorem exists_compile_of_insert_comment :
    ∃ first a b line p q,
      a = "function f:\n macro say(t) ".toList ++ '{' :: "\n ldstr R0, t\n".toList ++ ['}', '\n'] ∧
      line = " ; macro say(t) ".toList ++ ['{', ' ', '"'] ∧
      compile [first, ⟨"b.s".toList, a ++ b, []⟩] = .ok p ∧
      compile [first, ⟨"b.s".toList, a ++ (line ++ '\n' :: b), []⟩] = .ok q ∧
      q.instructions = p.instructions ∧ q.functions = p.functions ∧ q.labels = p.labels ∧
      q.strings = p.strings ∧ p.strings = #["a;b".toList, ['{']] ∧
      p.locations.toList.map (·.line) = [2, 3, 4, 5, 7] ∧
      q.locations.toList.map (·.line) = [2, 3, 4, 6, 8] := by
  let first : SourceFile :=
    { path := "a.s".toList, text := "import b.s\nsay(\"a;b\")\ncall f\nret".toList }
  let a : Text :=
    "function f:\n macro say(t) ".toList ++ '{' :: "\n ldstr R0, t\n".toList ++ ['}', '\n']
  let b : Text := "say(\"".toList ++ '{' :: "\")\nl:\nret\n".toList
  let line : Text := " ; macro say(t) ".toList ++ ['{', ' ', '"']
  let f : SourceFile := ⟨"b.s".toList, a ++ b, []⟩
  let place (file : String) (line : Nat) (text : String) : SourceLocation :=
    ⟨file.toList, line, text.toList⟩
  let parts : List (List SourceLocation) :=
    [[place "a.s" 2 "ldstr R0, \"a;b\"", place "a.s" 3 "call f", place "a.s" 4 "ret"],
      [⟨"b.s".toList, 5, "ldstr R0, ".toList ++ ['"', '{', '"']⟩, place "b.s" 7 "ret"]]
  let p : Program :=
    { instructions :=
        #[⟨.ldstr, [.register 0, .string 0]⟩, ⟨.call, [.target 3]⟩, ⟨.ret, []⟩,
          ⟨.ldstr, [.register 0, .string 1]⟩, ⟨.ret, []⟩]
      functions := #[⟨"f".toList, 3⟩]
      labels := #[⟨"l".toList, 4⟩]
      strings := #["a;b".toList, ['{']]
      locations := parts.flatten.toArray }
  have hp : compile [first, f] = .ok p := by decide +kernel
  have hranges : (MacroTable.segmentsOf f).map (Segment.ranges 0) = .ok [(13, 42)] := by
    decide +kernel
  obtain ⟨segs, hsegs, hranges⟩ := map_eq_ok_iff.1 hranges
  have houtside : ∀ r ∈ Segment.ranges 0 segs, ¬ (r.1 < a.length ∧ a.length < r.2) := by
    rw [hranges]
    decide +kernel
  have hline : '\n' ∉ line := by decide +kernel
  obtain ⟨q, expanded, hq, hinstructions, hfunctions, hlabels, hstrings, hexpanded, -,
      hlocations⟩ :=
    exists_compile_of_insert (i := 1) (f := f) (a := a) (b := b) hp rfl rfl
      (.inr (by decide +kernel)) hsegs houtside hline (.inr (by decide +kernel))
  have hparts : (expandMacros [first, f]).map (·.map (·.locations)) = .ok parts := by
    decide +kernel
  rw [hexpanded] at hparts
  have hparts : expanded.map (·.locations) = parts := Except.ok.inj hparts
  rw [hparts] at hlocations
  refine ⟨first, a, b, line, p, q, rfl, rfl, hp, hq, hinstructions, hfunctions, hlabels, hstrings,
    rfl, by decide +kernel, ?_⟩
  rw [hlocations]
  decide +kernel

end Files

end RegisterMachine
