import RegisterMachine.Proofs.Assembly.Comparison
import RegisterMachine.Proofs.Assembly.ImportGraph
import RegisterMachine.Proofs.Assembly.Literals

/-!
# What a file says

Both passes look at the statements of a file, the lines that are neither blank nor comments, and at
nothing else: files with the same paths and the same statements link to the same program
(`link_congr_contents`). Only the numbers of lines differ. They are the keys under which the first
pass keeps the lines that load a string (`CompilationUnit.forgetLines`), and they are shown to the
user as the place of an instruction.
-/

namespace RegisterMachine

/-- Whether a line says something: it is neither blank nor a comment. -/
def Line.isStatement : Line → Bool
  | .blank | .comment => false
  | _ => true

/-- What the lines of a file say, in order. -/
def SourceFile.statements (f : SourceFile) : List Line :=
  ((Text.lines f.text).map Line.classify).filter Line.isStatement

/-- What the passes see of files. -/
def contents (files : List SourceFile) : List (Text × List Line) :=
  files.map fun f => (f.path, f.statements)

/-- Two programs that differ at most in the line numbers of their locations. -/
structure Program.SameExceptLines (p q : Program) : Prop where
  instructions : p.instructions = q.instructions
  functions : p.functions = q.functions
  labels : p.labels = q.labels
  strings : p.strings = q.strings
  locations :
    p.locations.map (fun l => (l.file, l.text)) = q.locations.map fun l => (l.file, l.text)

section Lines

variable {lines : List (Nat × Text)} {files files' : List SourceFile}

theorem Line.code?_eq_none_of_isStatement {line : Line} (h : line.isStatement = false) :
    line.code? = none := by
  cases line with
  | blank | comment => rfl
  | _ => cases h

theorem SourceFile.map_classify_numberedLines (f : SourceFile) :
    f.numberedLines.map (fun line => Line.classify line.2) =
      (Text.lines f.text).map Line.classify := by
  rw [← f.map_snd_numberedLines, List.map_map]
  rfl

theorem SourceFile.map_code_codeLines (f : SourceFile) :
    f.codeLines.map (·.code) = f.statements.filterMap Line.code? := by
  have hcode (line : Line) :
      (if line.isStatement then line.code? else none) = line.code? := by
    cases h : line.isStatement with
    | true => rfl
    | false => exact (Line.code?_eq_none_of_isStatement h).symm
  rw [statements, ← f.map_classify_numberedLines, List.filterMap_filter, List.filterMap_map,
    codeLines, List.map_filterMap]
  refine List.filterMap_congr fun line _ => ?_
  rw [Function.comp_apply, hcode, Option.map_map]
  exact Option.map_id'

theorem map_code_linkedLines :
    (linkedLines files).map (fun line => (line.1, line.2.code)) =
      (contents files).zipIdx.flatMap fun x => (x.1.2.filterMap Line.code?).map (x.2, ·) := by
  simp only [linkedLines, contents, List.map_flatMap, List.map_map, List.zipIdx_map,
    List.flatMap_map, Prod.map, id, ← SourceFile.map_code_codeLines, Function.comp_def]

end Lines

namespace CompilationUnit

variable {paths : List Text} {base : Offsets} {u u' v : CompilationUnit} {number : Nat} {raw : Text}
variable {lines lines' : List (Nat × Text)} {f g : SourceFile}

/-- The unit without the lines that it keeps. -/
def forgetLines (u : CompilationUnit) : CompilationUnit :=
  { u with stringLines := [] }

theorem exists_of_forgetLines (h : v.forgetLines = u.forgetLines) :
    ∃ kept, v = { u with stringLines := kept } := by
  refine ⟨v.stringLines, ?_⟩
  simp only [forgetLines, CompilationUnit.mk.injEq] at h
  obtain ⟨hpath, hbase, himports, hfunctions, hlabels, hstrings, -, hcount⟩ := h
  rw [← hpath, ← hbase, ← himports, ← hfunctions, ← hlabels, ← hstrings, ← hcount]

theorem Takes.eq_of_isStatement (h : u.Takes paths number raw u')
    (hraw : (Line.classify raw).isStatement = false) : u' = u := by
  cases h with
  | skip => rfl
  | importOf h | function h | label h | plain h | stringLoad h => rw [h] at hraw; cases hraw

theorem takes_self_of_isStatement (hraw : (Line.classify raw).isStatement = false) :
    u.Takes paths number raw u := by
  refine .skip ?_
  cases h : Line.classify raw with
  | blank => exact .inl rfl
  | comment => exact .inr rfl
  | _ => rw [h] at hraw; cases hraw

theorem reads_filter_iff :
    u.Reads paths (lines.filter fun line => (Line.classify line.2).isStatement) u' ↔
      u.Reads paths lines u' := by
  induction lines generalizing u with
  | nil => rfl
  | cons line lines ih =>
    obtain ⟨number, raw⟩ := line
    cases hraw : (Line.classify raw).isStatement with
    | true =>
      rw [List.filter_cons_of_pos (by exact hraw)]
      constructor
      · rintro (_ | ⟨h, hs⟩)
        exact .cons h (ih.1 hs)
      · rintro (_ | ⟨h, hs⟩)
        exact .cons h (ih.2 hs)
    | false =>
      rw [List.filter_cons_of_neg (by simp [hraw]), ih]
      constructor
      · exact .cons (takes_self_of_isStatement hraw)
      · rintro (_ | ⟨h, hs⟩)
        rwa [h.eq_of_isStatement hraw] at hs

/-- What a line does depends on what it says. -/
theorem Takes.exists_of_classify (h : u.Takes paths number raw u')
    (hv : v.forgetLines = u.forgetLines) {number' : Nat} {raw' : Text}
    (hraw : Line.classify raw' = Line.classify raw) :
    ∃ v', v.Takes paths number' raw' v' ∧ v'.forgetLines = u'.forgetLines := by
  obtain ⟨kept, rfl⟩ := exists_of_forgetLines hv
  cases h with
  | skip h => exact ⟨_, .skip (hraw ▸ h), rfl⟩
  | importOf h hne hpath => exact ⟨_, .importOf (hraw.trans h) hne hpath, rfl⟩
  | function h hname ht => exact ⟨_, .function (hraw.trans h) hname ht, rfl⟩
  | label h hname ht => exact ⟨_, .label (hraw.trans h) hname ht, rfl⟩
  | plain h hload => exact ⟨_, .plain (hraw.trans h) hload, rfl⟩
  | stringLoad h hload hquoted => exact ⟨_, .stringLoad (hraw.trans h) hload hquoted, rfl⟩

theorem Reads.exists_of_map_classify (h : u.Reads paths lines u')
    (hv : v.forgetLines = u.forgetLines)
    (hlines : lines'.map (fun line => Line.classify line.2) =
      lines.map fun line => Line.classify line.2) :
    ∃ v', v.Reads paths lines' v' ∧ v'.forgetLines = u'.forgetLines := by
  induction h generalizing v lines' with
  | nil =>
    obtain rfl := List.map_eq_nil_iff.1 hlines
    exact ⟨v, .nil v, hv⟩
  | cons h _ ih =>
    rw [List.map_cons] at hlines
    obtain ⟨line, rest, rfl, hline, hrest⟩ := List.map_eq_cons_iff.1 hlines
    obtain ⟨v₁, hv₁, hforget⟩ := h.exists_of_classify hv hline
    obtain ⟨v', hv', hforget'⟩ := ih hforget hrest
    exact ⟨v', .cons hv₁ hv', hforget'⟩

theorem exists_collect_of_statements (h : collect paths base f = .ok u) (hpath : g.path = f.path)
    (hstatements : g.statements = f.statements) :
    ∃ v, collect paths base g = .ok v ∧ v.forgetLines = u.forgetLines := by
  have hreads := reads_filter_iff.2 (reads_of_collect h)
  have hmap (f : SourceFile) :
      (f.numberedLines.filter fun line => (Line.classify line.2).isStatement).map
        (fun line => Line.classify line.2) = f.statements := by
    rw [SourceFile.statements, ← f.map_classify_numberedLines, List.filter_map]
    rfl
  obtain ⟨v, hv, hforget⟩ := hreads.exists_of_map_classify rfl
    (((hmap g).trans hstatements).trans (hmap f).symm)
  rw [← hpath] at hv
  exact ⟨v, collect_of_reads (reads_filter_iff.1 hv), hforget⟩

variable {files files' : List SourceFile} {units units' : List CompilationUnit}

/-- Files with the same contents are collected alike, except for the lines that are kept. -/
theorem Collects.exists_of_contents (h : Collects paths base files units)
    (hcontents : contents files' = contents files) :
    ∃ units', Collects paths base files' units' ∧
      units'.map forgetLines = units.map forgetLines := by
  induction h generalizing files' with
  | nil =>
    obtain rfl := List.map_eq_nil_iff.1 hcontents
    exact ⟨[], .nil _, rfl⟩
  | @cons base f fs u us h _ ih =>
    obtain ⟨g, gs, rfl, hg, hgs⟩ := List.map_eq_cons_iff.1 hcontents
    obtain ⟨hpath, hstatements⟩ := Prod.mk.inj hg
    obtain ⟨v, hv, hforget⟩ := exists_collect_of_statements h hpath hstatements
    obtain ⟨vs, hvs, hforgets⟩ := ih hgs
    -- so the next file starts where it did
    have hoffsets : v.offsetsAfter = u.offsetsAfter := by
      obtain ⟨kept, rfl⟩ := exists_of_forgetLines hforget
      rfl
    refine ⟨v :: vs, .cons hv (hoffsets ▸ hvs), ?_⟩
    rw [List.map_cons, List.map_cons, hforget, hforgets]

/-- The second pass finds the literal of an instruction that loads one. -/
theorem quoted?_lookup_of_collect {l : CodeLine} (h : collect paths base f = .ok u)
    (hl : l ∈ f.codeLines) :
    (u.stringLines.lookup l.number).bind Text.quoted? =
      if isStringLoad l.code then Text.quoted? l.code else none := by
  rw [lookup_stringLines_of_collect h hl]
  split
  · rename_i hload
    exact quoted?_raw_of_collect h hl hload
  · rfl

end CompilationUnit

section Names

variable {units units' : List CompilationUnit} {i : Nat} {kind : SymbolKind} {name : Text}

theorem build_forgetLines :
    ImportGraph.build (units.map (·.forgetLines)) = ImportGraph.build units :=
  ImportGraph.build_map (fun _ => rfl) fun _ => rfl

theorem resolve?_forgetLines :
    (Collection.ofUnits (units.map (·.forgetLines))).resolve? i kind name =
      (Collection.ofUnits units).resolve? i kind name := by
  unfold Collection.resolve? Collection.ofUnits
  dsimp only
  rw [build_forgetLines]
  congr 1
  funext j
  rw [List.getElem?_map]
  cases units[j]? <;> rfl

theorem visibleDuplicate?_forgetLines :
    visibleDuplicate? (units.map (·.forgetLines)) (.build (units.map (·.forgetLines))) = none ↔
      visibleDuplicate? units (.build units) = none := by
  rw [build_forgetLines, visibleDuplicate?_eq_none_iff, visibleDuplicate?_eq_none_iff]
  constructor
  · intro h i later hlater j earlier hearlier
    refine h i later.forgetLines ?_ j earlier.forgetLines ?_
    · rw [List.getElem?_map, hlater, Option.map_some]
    · rw [List.getElem?_map, hearlier, Option.map_some]
  · intro h i later hlater j earlier hearlier
    rw [List.getElem?_map] at hlater hearlier
    obtain ⟨u, hu, rfl⟩ := Option.map_eq_some_iff.1 hlater
    obtain ⟨v, hv, rfl⟩ := Option.map_eq_some_iff.1 hearlier
    exact h i u hu j v hv

end Names

section Code

variable {paths : List Text} {files files' : List SourceFile} {units units' : List CompilationUnit}
  {line line' : Nat × CodeLine} {x : Instruction × SourceLocation}

theorem Link.Encodes.exists_of_forgetLines (h : CompilationUnit.Collects paths {} files units)
    (h' : CompilationUnit.Collects paths {} files' units')
    (hforget : units'.map (·.forgetLines) = units.map (·.forgetLines))
    (hline : line ∈ linkedLines files) (hline' : line' ∈ linkedLines files')
    (hcode : (line'.1, line'.2.code) = (line.1, line.2.code))
    (hx : Encodes (.ofUnits units) files line x) :
    ∃ y, Encodes (.ofUnits units') files' line' y ∧
      (y.1, y.2.file, y.2.text) = (x.1, x.2.file, x.2.text) := by
  obtain ⟨i, l⟩ := line
  obtain ⟨i', l'⟩ := line'
  simp only [Prod.mk.injEq] at hcode
  obtain ⟨rfl, hcode⟩ := hcode
  obtain ⟨f, hf, hl⟩ := mem_linkedLines_iff.1 hline
  obtain ⟨g, hg, hl'⟩ := mem_linkedLines_iff.1 hline'
  obtain ⟨f', u, hf', hu, hx⟩ := hx
  obtain rfl := Option.some.inj (hf.symm.trans hf')
  obtain ⟨hencode, hlocation⟩ := Encoding.encodeCodeLine_eq_ok_iff.1 hx
  have hv : (units'.map (·.forgetLines))[i']? = some u.forgetLines := by
    rw [hforget, List.getElem?_map]
    exact congrArg (Option.map (·.forgetLines)) hu
  rw [List.getElem?_map] at hv
  obtain ⟨v, hv, hvu⟩ := Option.map_eq_some_iff.1 hv
  have hcollect := rel_of_getElem? h.collect_eq hf hu
  have hcollect' := rel_of_getElem? h'.collect_eq hg hv
  obtain ⟨kept, rfl⟩ := CompilationUnit.exists_of_forgetLines hvu
  -- the lines are kept under other numbers, but what is found between the quotes is the same
  have hquoted : (kept.lookup l'.number).bind Text.quoted? =
      (u.stringLines.lookup l.number).bind Text.quoted? := by
    rw [CompilationUnit.quoted?_lookup_of_collect hcollect hl,
      CompilationUnit.quoted?_lookup_of_collect hcollect' hl', hcode]
  refine ⟨(x.1, ⟨u.path, g.origin l'.number, l'.code⟩), ⟨g, _, hg, hv, ?_⟩, ?_⟩
  · refine Encoding.encodeCodeLine_eq_ok_iff.2 ⟨?_, rfl⟩
    rw [hcode]
    refine Encoding.encodeLine_congr (fun kind name s hs => ?_) hquoted rfl hencode
    rwa [← resolve?_forgetLines, hforget, resolve?_forgetLines]
  · rw [hlocation, hcode]

theorem flatMap_eq_of_forgetLines {β : Type} {g : CompilationUnit → List β}
    (hg : ∀ u : CompilationUnit, g u.forgetLines = g u)
    (h : units'.map (·.forgetLines) = units.map (·.forgetLines)) :
    units'.flatMap g = units.flatMap g := by
  have hmap (units : List CompilationUnit) :
      (units.map (·.forgetLines)).flatMap g = units.flatMap g := by
    simp [List.flatMap_map, hg]
  rw [← hmap, h, hmap]

theorem Link.sameExceptLines_program {code code' : List (Instruction × SourceLocation)}
    (hforget : units'.map (·.forgetLines) = units.map (·.forgetLines))
    (hcode : code'.map (fun x => (x.1, x.2.file, x.2.text)) =
      code.map fun x => (x.1, x.2.file, x.2.text)) :
    (program units' code').SameExceptLines (program units code) := by
  have hinstructions : code'.map (·.1) = code.map (·.1) := by
    have := congrArg (List.map Prod.fst) hcode
    simpa [Function.comp_def] using this
  have hlocations : (code'.map (·.2)).map (fun l => (l.file, l.text)) =
      (code.map (·.2)).map fun l => (l.file, l.text) := by
    have := congrArg (List.map Prod.snd) hcode
    simpa [Function.comp_def] using this
  constructor
  · exact congrArg List.toArray hinstructions
  · exact congrArg List.toArray (flatMap_eq_of_forgetLines (fun _ => rfl) hforget)
  · exact congrArg List.toArray (flatMap_eq_of_forgetLines (fun _ => rfl) hforget)
  · exact congrArg List.toArray (flatMap_eq_of_forgetLines (fun _ => rfl) hforget)
  · simp only [program, List.map_toArray, hlocations]

/-- Files with the same contents link to the same program, except for line numbers. -/
theorem link_congr_contents {p : Program} (hcontents : contents files' = contents files)
    (hp : link files = .ok p) : ∃ q, link files' = .ok q ∧ q.SameExceptLines p := by
  obtain ⟨units, code, hunits, hduplicate, hcode, rfl⟩ := link_eq_ok_iff.1 hp
  rw [CompilationUnit.collectAll_eq_ok_iff] at hunits
  obtain ⟨units', hunits', hforget⟩ := hunits.exists_of_contents hcontents
  have hlines : List.Forall₂ (fun line line' => line ∈ linkedLines files ∧
      line' ∈ linkedLines files' ∧ (line.1, line.2.code) = (line'.1, line'.2.code))
      (linkedLines files) (linkedLines files') := by
    refine forall₂_mem (forall₂_iff_map_eq.2 ?_)
    rw [map_code_linkedLines, map_code_linkedLines, hcontents]
  obtain ⟨code', hcode', hsame⟩ : ∃ code',
      List.Forall₂ (Link.Encodes (.ofUnits units') files') (linkedLines files') code' ∧
        List.Forall₂ (fun x y : Instruction × SourceLocation =>
          (x.1, x.2.file, x.2.text) = (y.1, y.2.file, y.2.text)) code code' := by
    refine exists_forall₂ ?_ (hunits.encodes hcode) hlines
    intro line x line' hx ⟨hline, hline', heq⟩
    obtain ⟨y, hy, hxy⟩ := hx.exists_of_forgetLines hunits hunits' hforget hline hline' heq.symm
    exact ⟨y, hy, hxy.symm⟩
  have hpaths : files'.map (·.path) = files.map (·.path) := by
    have := congrArg (List.map Prod.fst) hcontents
    simpa [contents, Function.comp_def] using this
  have hcount := hunits'.forall₂.imp fun _ _ hu => hu.instructionCount
  refine ⟨Link.program units' code', link_eq_ok_iff.2 ⟨units', code', ?_, ?_, ?_, rfl⟩, ?_⟩
  · exact CompilationUnit.collectAll_eq_ok_iff.2 (hpaths ▸ hunits')
  · rwa [← visibleDuplicate?_forgetLines, hforget, visibleDuplicate?_forgetLines]
  · exact (Link.code_eq_ok_iff hcount).2 hcode'
  · exact Link.sameExceptLines_program hforget (forall₂_iff_map_eq.1 hsame).symm

end Code

end RegisterMachine
