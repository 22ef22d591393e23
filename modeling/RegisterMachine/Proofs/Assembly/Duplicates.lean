import RegisterMachine.Proofs.Assembly.Comparison
import RegisterMachine.Proofs.Assembly.ImportClosure
import RegisterMachine.Proofs.Assembly.Literals
import RegisterMachine.Proofs.Assembly.Resolution

/-!
# Names that are declared twice

A name may be declared once in a file, and once among files that see one another. Lines that are in
order by themselves are refused only for a name that is taken (`CompilationUnit.exists_of_addLine`),
so the first pass fails exactly if a file declares a name twice; then the units are compared in
pairs, which finds exactly the names that are shared along imports
(`CompilationUnit.Collects.visibleDuplicate?_eq_none_iff`).
-/

namespace RegisterMachine

namespace Line

/-- What the first pass asks of a line of the file at `path`, apart from what the lines before it
have declared. -/
def IsAdmissible (paths : List Text) (path : Text) : Line → Prop
  | .importOf other => other ≠ path ∧ other ∈ paths
  | .function name | .label name => isSymbolName name
  | .instruction code => isStringLoad code → (Text.quoted? code).isSome
  | .blank | .comment => True

instance (paths : List Text) (path : Text) : (l : Line) → Decidable (l.IsAdmissible paths path)
  | .importOf _ => inferInstanceAs (Decidable (_ ∧ _))
  | .function _ | .label _ => inferInstanceAs (Decidable (_ = true))
  | .instruction _ => inferInstanceAs (Decidable (_ → _))
  | .blank | .comment => inferInstanceAs (Decidable True)

/-- The path that a line imports. -/
def imported? : Line → Option Text
  | .importOf path => some path
  | _ => none

end Line

namespace SourceFile

/-- The paths that a file imports, in order. -/
def imports (f : SourceFile) : List Text :=
  f.numberedLines.filterMap fun l => (Line.classify l.2).imported?

/-- An import of file `i` names file `j`. -/
def Imports (files : List SourceFile) (i j : Nat) : Prop :=
  ∃ f ∈ files[i]?, ∃ path ∈ f.imports, ImportGraph.Names (files.map (·.path)) path j

/-- Every line is one that the first pass can take in. -/
def IsAdmissible (paths : List Text) (f : SourceFile) : Prop :=
  ∀ l ∈ f.numberedLines, (Line.classify l.2).IsAdmissible paths f.path

instance (paths : List Text) (f : SourceFile) : Decidable (f.IsAdmissible paths) :=
  inferInstanceAs (Decidable (∀ l ∈ f.numberedLines, _))

end SourceFile

/-- A file declares a name twice as the same kind, in any case. -/
def RepeatsName (files : List SourceFile) : Prop :=
  ∃ kind, ∃ d ∈ declarations kind files, ∃ e ∈ declarations kind files,
    d.file = e.file ∧ d.line ≠ e.line ∧ d.IsNamed e.name

/-- Two files of which one reaches the other by imports declare a name as the same kind, in any
case. -/
def SharesName (files : List SourceFile) : Prop :=
  ∃ kind, ∃ d ∈ declarations kind files, ∃ e ∈ declarations kind files,
    d.file ≠ e.file ∧ d.IsNamed e.name ∧
      (Relation.ReflTransGen (SourceFile.Imports files) d.file e.file ∨
        Relation.ReflTransGen (SourceFile.Imports files) e.file d.file)

theorem SymbolTable.IsIndexed.declare?_eq_none_iff {t : SymbolTable} (h : t.IsIndexed) {name : Text}
    {address : Nat} :
    t.declare? name address = none ↔
      ∃ s ∈ t.symbols, Text.foldCase s.name = Text.foldCase name := by
  have hkeys : Text.foldCase name ∈ t.keys ↔
      ∃ s ∈ t.symbols, Text.foldCase s.name = Text.foldCase name := List.mem_map
  rw [← hkeys]
  unfold SymbolTable.declare?
  dsimp only
  cases hlookup : t.index.lookup (Text.foldCase name) with
  | none =>
    rw [h.index, lookup_zipIdx_eq_none_iff] at hlookup
    simp [hlookup]
  | some i =>
    have hmem : Text.foldCase name ∈ t.keys := by
      by_contra hnone
      have hfree : (t.keys.zipIdx t.base).lookup (Text.foldCase name) = none :=
        lookup_zipIdx_eq_none_iff.2 hnone
      rw [← h.index, hlookup] at hfree
      cases hfree
    simp [hmem]

namespace CompilationUnit

variable {paths : List Text} {base : Offsets} {u u' : CompilationUnit} {number : Nat} {raw : Text}
  {lines : List (Nat × Text)} {f : SourceFile} {kind : SymbolKind} {name : Text}
  {cause : CompileError.Cause} {e : CompileError}

theorem IsIndexed.nodup_symbols (h : u.IsIndexed) (kind : SymbolKind) :
    ((u.symbols kind).map fun s => Text.foldCase s.name).Nodup := by
  cases kind with
  | function => exact h.functions.nodup
  | label => exact h.labels.nodup
  | string => exact List.nodup_nil

theorem exists_of_declare (hname : isSymbolName name) (hkind : kind ≠ .string) (hu : u.IsIndexed)
    (h : u.declare kind name = .error cause) :
    cause = .duplicateSymbol kind name none ∧
      ∃ s ∈ u.symbols kind, Text.foldCase s.name = Text.foldCase name := by
  unfold declare at h
  rw [if_pos hname] at h
  cases kind with
  | function =>
    dsimp only at h
    split at h <;> cases h
    rename_i hnone
    exact ⟨rfl, hu.functions.declare?_eq_none_iff.1 hnone⟩
  | label =>
    dsimp only at h
    split at h <;> cases h
    rename_i hnone
    exact ⟨rfl, hu.labels.declare?_eq_none_iff.1 hnone⟩
  | string => exact absurd rfl hkind

/-- A line that is in order by itself is refused only for a name that is taken. -/
theorem exists_of_addLine (hline : (Line.classify raw).IsAdmissible paths u.path)
    (hu : u.IsIndexed) (h : u.addLine paths number raw = .error cause) :
    ∃ kind name, (Line.classify raw).declared? kind = some name ∧
      cause = .duplicateSymbol kind name none ∧
      ∃ s ∈ u.symbols kind, Text.foldCase s.name = Text.foldCase name := by
  unfold addLine at h
  split at h <;> rename_i hclass <;> rw [hclass] at hline ⊢
  · cases h
  · cases h
  · obtain ⟨hne, hmem⟩ := hline
    simp [addImport, hne, hmem] at h
  · exact ⟨.function, _, rfl, exists_of_declare hline (by decide) hu h⟩
  · exact ⟨.label, _, rfl, exists_of_declare hline (by decide) hu h⟩
  · unfold addInstruction at h
    split at h
    · rename_i hload
      obtain ⟨literal, hliteral⟩ := Option.isSome_iff_exists.1 (hline hload)
      rw [hliteral] at h
      cases h
    · cases h

theorem Takes.imports (h : u.Takes paths number raw u') :
    u'.imports = u.imports ++ (Line.classify raw).imported?.toList := by
  cases h with
  | skip h => rcases h with h | h <;> simp [h, Line.imported?]
  | importOf h | function h | label h | plain h | stringLoad h => simp [h, Line.imported?]

theorem Reads.imports (h : u.Reads paths lines u') :
    u'.imports = u.imports ++ lines.filterMap fun l => (Line.classify l.2).imported? := by
  induction h with
  | nil => simp
  | @cons u u₁ u' number raw lines h _ ih =>
    rw [ih, h.imports, List.append_assoc, List.filterMap_cons]
    cases (Line.classify raw).imported? <;> rfl

theorem imports_of_collect (h : collect paths base f = .ok u) : u.imports = f.imports := by
  have himports := (reads_of_collect h).imports
  rwa [empty, List.nil_append] at himports

/-- A file fails at one of its lines, when the lines in front of it have been read. -/
theorem exists_of_collect_eq_error (h : collect paths base f = .error e) :
    ∃ before number raw after u, f.numberedLines = before ++ (number, raw) :: after ∧
      (empty f.path base).Reads paths before u ∧
      u.addLine paths number raw = .error e.cause := by
  unfold collect at h
  generalize empty f.path base = u at h ⊢
  generalize f.numberedLines = lines at h ⊢
  induction lines generalizing u with
  | nil => cases h
  | cons line lines ih =>
    rw [List.foldlM_cons] at h
    rcases bind_eq_error_iff.1 h with h | ⟨u₁, hline, h⟩
    · exact ⟨[], line.1, line.2, lines, u, rfl, .nil u, (of_collectLine_eq_error h).1⟩
    · obtain ⟨before, number, raw, after, v, rfl, hreads, herror⟩ := ih u₁ h
      have htakes := takes_of_addLine (collectLine_eq_ok_iff.1 hline)
      exact ⟨line :: before, number, raw, after, v, rfl, .cons htakes hreads, herror⟩

/-- A file whose lines are in order by themselves is refused only if it declares a name twice. -/
theorem exists_of_isAdmissible (hf : f.IsAdmissible paths) (h : collect paths base f = .error e) :
    ∃ kind name, e.cause = .duplicateSymbol kind name none ∧
      ∃ d ∈ declaredNames kind f.numberedLines, ∃ d' ∈ declaredNames kind f.numberedLines,
        d.1 ≠ d'.1 ∧ Text.foldCase d.2 = Text.foldCase d'.2 := by
  obtain ⟨before, number, raw, after, u, hlines, hreads, herror⟩ := exists_of_collect_eq_error h
  have hmem : (number, raw) ∈ f.numberedLines := by simp [hlines]
  have hadmissible : (Line.classify raw).IsAdmissible paths u.path := by
    rw [hreads.sameOrigin.path]
    exact hf _ hmem
  obtain ⟨kind, name, hdeclared, hcause, s, hs, hname⟩ :=
    exists_of_addLine hadmissible (hreads.isIndexed (isIndexed_empty _)) herror
  have hordered := f.pairwise_numberedLines
  rw [hlines] at hordered
  obtain ⟨hbefore, -, hcross⟩ := List.pairwise_append.1 hordered
  have hnone : (empty f.path base).symbols kind = [] := by cases kind <;> rfl
  rw [hreads.symbols hbefore, hnone, List.nil_append] at hs
  obtain ⟨d, hd, rfl⟩ := List.mem_map.1 hs
  obtain ⟨raw', hraw', -⟩ := mem_of_mem_declaredNames hd
  have hlt : d.1 < number := hcross _ hraw' _ List.mem_cons_self
  refine ⟨kind, name, hcause, d, ?_, (number, name), ?_, Nat.ne_of_lt hlt, hname⟩
  · rw [hlines, declaredNames, List.filterMap_append]
    exact List.mem_append_left _ hd
  · exact List.mem_filterMap.2 ⟨(number, raw), hmem, by simp [hdeclared]⟩

/-- A file that is taken in declares no name twice. -/
theorem eq_of_collect (h : collect paths base f = .ok u) {d d' : Nat × Text}
    (hd : d ∈ declaredNames kind f.numberedLines) (hd' : d' ∈ declaredNames kind f.numberedLines)
    (hname : Text.foldCase d.2 = Text.foldCase d'.2) : d = d' := by
  have hnodup := ((reads_of_collect h).isIndexed (isIndexed_empty _)).nodup_symbols kind
  rw [(isCollected_of_collect h).symbols, List.map_map] at hnodup
  exact List.inj_on_of_nodup_map hnodup hd hd' hname

variable {files : List SourceFile} {units : List CompilationUnit} {i j : Nat}

theorem exists_of_collectPrefix_eq_error (h : collectPrefix paths base files = (units, some e)) :
    ∃ f ∈ files, ∃ start, collect paths start f = .error e := by
  induction files generalizing base units with
  | nil => cases h
  | cons f fs ih =>
    unfold collectPrefix at h
    split at h
    · rename_i hf
      cases h
      exact ⟨f, List.mem_cons_self, base, hf⟩
    · obtain ⟨-, hsome⟩ := Prod.mk.inj h
      obtain ⟨g, hg, herror⟩ := ih (Prod.ext rfl hsome)
      exact ⟨g, List.mem_cons_of_mem _ hg, herror⟩

theorem exists_of_collectAll_eq_error (h : collectAll files = .error e) :
    ∃ f ∈ files, ∃ start, collect (files.map (·.path)) start f = .error e := by
  unfold collectAll at h
  split at h <;> cases h
  exact exists_of_collectPrefix_eq_error (by assumption)

theorem Collects.imports_iff (h : Collects paths base files units) :
    ImportGraph.Imports units i j ↔ SourceFile.Imports files i j := by
  unfold ImportGraph.Imports SourceFile.Imports
  rw [h.map_path]
  have himports : units.map (·.imports) = files.map (·.imports) :=
    forall₂_iff_map_eq.1 (h.collect_eq.flip.imp fun _ _ hu => imports_of_collect hu)
  have hi : (units[i]?).map (·.imports) = (files[i]?).map (·.imports) := by
    rw [← List.getElem?_map, ← List.getElem?_map, himports]
  cases hu : units[i]? <;> cases hf : files[i]? <;> rw [hu, hf] at hi <;> simp_all

theorem Collects.mem_symbols_iff (h : Collects paths {} files units) (hu : units[i]? = some u)
    {s : Symbol} :
    s ∈ u.symbols kind ↔ ∃ d ∈ declarations kind files, d.file = i ∧ s = d.symbol files := by
  obtain ⟨hi, -⟩ := List.getElem?_eq_some_iff.1 hu
  rw [← h.forall₂.length_eq] at hi
  have hf : files[i]? = some files[i] := List.getElem?_eq_getElem hi
  rw [h.symbols_eq hf hu]
  constructor
  · intro hs
    obtain ⟨⟨line, declared⟩, hd, rfl⟩ := List.mem_map.1 hs
    exact ⟨⟨declared, i, line⟩, mem_declarations_iff.2 ⟨_, hf, hd⟩, rfl, rfl⟩
  · rintro ⟨d, hd, rfl, rfl⟩
    obtain ⟨f, hf', hd⟩ := mem_declarations_iff.1 hd
    obtain rfl := Option.some.inj (hf.symm.trans hf')
    exact List.mem_map.2 ⟨_, hd, rfl⟩

theorem Collects.exists_unit (h : Collects paths base files units) {d : Declaration}
    (hd : d ∈ declarations kind files) : ∃ u, units[d.file]? = some u := by
  obtain ⟨f, hf, -⟩ := mem_declarations_iff.1 hd
  obtain ⟨hlt, -⟩ := List.getElem?_eq_some_iff.1 hf
  exact ⟨_, List.getElem?_eq_getElem (h.forall₂.length_eq ▸ hlt)⟩

theorem Collects.reaches_iff (h : Collects paths base files units) (hi : i < units.length) :
    (ImportGraph.build units).reaches i j ↔
      Relation.ReflTransGen (SourceFile.Imports files) i j := by
  have himports : ImportGraph.Imports units = SourceFile.Imports files :=
    funext fun _ => funext fun _ => propext h.imports_iff
  rw [ImportGraph.reaches_iff hi, himports]

/-- Where no name is shared, a unit finds none of the names of another unit that it sees or that sees
it. -/
theorem Collects.find?_eq_none_of_not_sharesName (h : Collects paths {} files units)
    (hshares : ¬ SharesName files) (hu : units[i]? = some u) (hv : units[j]? = some u') (hij : i ≠ j)
    (hreach : (ImportGraph.build units).reaches i j ∨ (ImportGraph.build units).reaches j i) :
    ∀ s ∈ u.symbols kind, u'.find? kind s.name = none := by
  intro s hs
  obtain ⟨hi, -⟩ := List.getElem?_eq_some_iff.1 hu
  obtain ⟨hj, -⟩ := List.getElem?_eq_some_iff.1 hv
  rw [h.reaches_iff hi, h.reaches_iff hj] at hreach
  obtain ⟨d, hd, rfl, rfl⟩ := (h.mem_symbols_iff hu).1 hs
  have hnone : units[j]?.bind (·.find? kind d.name) = none := by
    refine h.find?_eq_none_iff.2 fun e he hname hfile => hshares ?_
    subst hfile
    exact ⟨kind, d, hd, e, he, hij, hname.symm, hreach⟩
  rwa [hv, Option.bind_some] at hnone

/-- The comparison of the units finds every name that two files share along imports. -/
theorem Collects.visibleDuplicate?_eq_none_iff (h : Collects paths {} files units) :
    visibleDuplicate? units (.build units) = none ↔ ¬ SharesName files := by
  rw [RegisterMachine.visibleDuplicate?_eq_none_iff]
  simp only [sharedName?_eq_none_iff]
  constructor
  · rintro hnone ⟨kind, d, hd, e, he, hfile, hname, hreach⟩
    obtain ⟨u, hu⟩ := h.exists_unit hd
    obtain ⟨v, hv⟩ := h.exists_unit he
    obtain ⟨hi, -⟩ := List.getElem?_eq_some_iff.1 hu
    obtain ⟨hj, -⟩ := List.getElem?_eq_some_iff.1 hv
    rw [← h.reaches_iff hi, ← h.reaches_iff hj] at hreach
    -- the later of the two files is compared with the earlier one
    rcases Nat.lt_or_gt_of_ne hfile with hbefore | hbehind
    · have hs := (h.mem_symbols_iff hv).2 ⟨e, he, rfl, rfl⟩
      have hfind := hnone e.file v hv d.file u hu hbefore hreach.symm kind _ hs
      exact h.find?_eq_none_iff.1 (by rwa [hu, Option.bind_some]) d hd hname rfl
    · have hs := (h.mem_symbols_iff hu).2 ⟨d, hd, rfl, rfl⟩
      have hfind := hnone d.file u hu e.file v hv hbehind hreach kind _ hs
      exact h.find?_eq_none_iff.1 (by rwa [hv, Option.bind_some]) e he hname.symm rfl
  · intro hshares i u hu j v hv hji hreach kind
    exact h.find?_eq_none_of_not_sharesName hshares hu hv (Nat.ne_of_gt hji) hreach

theorem not_repeatsName_of_collects (h : Collects paths base files units) :
    ¬ RepeatsName files := by
  rintro ⟨kind, d, hd, e, he, hfile, hline, hname⟩
  obtain ⟨u, hu⟩ := h.exists_unit hd
  obtain ⟨f, hf, hd⟩ := mem_declarations_iff.1 hd
  obtain ⟨g, hg, he⟩ := mem_declarations_iff.1 he
  obtain rfl : f = g := Option.some.inj (hf.symm.trans (hfile ▸ hg))
  have hcollect := rel_of_getElem? h.collect_eq hf hu
  exact hline (Prod.mk.inj (eq_of_collect hcollect hd he hname)).1

/-- Files whose lines are in order by themselves are refused only if one declares a name twice. -/
theorem exists_of_collectAll (hfiles : ∀ f ∈ files, f.IsAdmissible (files.map (·.path)))
    (h : collectAll files = .error e) :
    (∃ kind name, e.cause = .duplicateSymbol kind name none) ∧ RepeatsName files := by
  obtain ⟨f, hf, start, herror⟩ := exists_of_collectAll_eq_error h
  obtain ⟨kind, name, hcause, d, hd, d', hd', hline, hname⟩ :=
    exists_of_isAdmissible (hfiles f hf) herror
  obtain ⟨i, hi⟩ := List.mem_iff_getElem?.1 hf
  refine ⟨⟨kind, name, hcause⟩, kind, ⟨d.2, i, d.1⟩, mem_declarations_iff.2 ⟨f, hi, hd⟩,
    ⟨d'.2, i, d'.1⟩, mem_declarations_iff.2 ⟨f, hi, hd'⟩, rfl, hline, hname⟩

end CompilationUnit

section Link

variable {files : List SourceFile} {units : List CompilationUnit} {e : CompileError}

/-- What is wrong behind the comparison of the units is found by the second pass. -/
theorem stage_eq_encode_of_link (hunits : CompilationUnit.collectAll files = .ok units)
    (hnone : visibleDuplicate? units (.build units) = none) (h : link files = .error e) :
    e.stage = .encode := by
  have hcollects := CompilationUnit.collects_of_collectAll hunits
  rcases bind_eq_error_iff.1 h with h | ⟨units', hunits', h⟩
  · rw [hunits] at h
    cases h
  · obtain rfl := Except.ok.inj (hunits.symm.trans hunits')
    have hnone' : visibleDuplicate? (Collection.ofUnits units).units
        (Collection.ofUnits units).graph = none := hnone
    simp only [hnone'] at h
    rcases bind_eq_error_iff.1 h with h | ⟨code, hcode, h⟩
    · exact Link.stage_of_code (hcollects.forall₂.imp fun _ _ hu => hu.instructionCount) h
    · rw [fault?_program hunits hcode] at h
      cases h

theorem link_of_visibleDuplicate? (hunits : CompilationUnit.collectAll files = .ok units)
    (h : visibleDuplicate? units (.build units) = some e) : link files = .error e := by
  refine bind_eq_error_iff.2 (.inr ⟨units, hunits, ?_⟩)
  have h' : visibleDuplicate? (Collection.ofUnits units).units
      (Collection.ofUnits units).graph = some e := h
  simp only [h']
  rfl

end Link

/-- Where all lines are in order by themselves, the first pass fails for a name that is declared
twice exactly if a file declares one twice. Otherwise it succeeds, and the comparison of the units
fails exactly if two files of which one reaches the other share a name; if it succeeds, no unit
finds a name of another unit that it sees or that sees it. There is no other error before the second
pass. -/
theorem duplicates_of_isAdmissible {files expanded : List SourceFile}
    (hexpanded : expandMacros files = .ok expanded)
    (hlines : ∀ f ∈ expanded, f.IsAdmissible (expanded.map (·.path))) :
    ((∃ e kind name, CompilationUnit.collectAll expanded = .error e ∧
        e.cause = .duplicateSymbol kind name none) ↔ RepeatsName expanded) ∧
      (¬ RepeatsName expanded → ∃ units, CompilationUnit.collectAll expanded = .ok units ∧
        ((visibleDuplicate? units (.build units)).isSome ↔ SharesName expanded) ∧
        (visibleDuplicate? units (.build units) = none →
          ∀ i u j v, units[i]? = some u → units[j]? = some v → i ≠ j →
            j ∈ (ImportGraph.build units).visibleFrom i ∨
              i ∈ (ImportGraph.build units).visibleFrom j →
            ∀ kind, ∀ s ∈ u.symbols kind, v.find? kind s.name = none)) ∧
      ((∃ e, compile files = .error e ∧ e.stage = .collect) ↔
        RepeatsName expanded ∨ SharesName expanded) := by
  have hcompile : compile files = link expanded := by rw [compile, hexpanded]; rfl
  cases hunits : CompilationUnit.collectAll expanded with
  | error e =>
    obtain ⟨⟨kind, name, hcause⟩, hrepeats⟩ := CompilationUnit.exists_of_collectAll hlines hunits
    have hlink : link expanded = .error e := bind_eq_error_iff.2 (.inl hunits)
    refine ⟨iff_of_true ⟨e, kind, name, rfl, hcause⟩ hrepeats, absurd hrepeats, ?_⟩
    exact iff_of_true ⟨e, hcompile.trans hlink, CompilationUnit.stage_of_collectAll hunits⟩
      (.inl hrepeats)
  | ok units =>
    have hcollects := CompilationUnit.collects_of_collectAll hunits
    have hrepeats := CompilationUnit.not_repeatsName_of_collects hcollects
    have hshares := hcollects.visibleDuplicate?_eq_none_iff
    refine ⟨iff_of_false ?_ hrepeats, fun _ => ⟨units, rfl, ?_, ?_⟩, ?_⟩
    · rintro ⟨_, _, _, herror, -⟩
      cases herror
    · rw [← not_iff_not, Option.not_isSome_iff_eq_none, hshares]
    · intro hnone i u j v hu hv hij hsees kind
      refine hcollects.find?_eq_none_of_not_sharesName (hshares.1 hnone) hu hv hij ?_
      simpa [ImportGraph.reaches] using hsees
    · rw [hcompile, or_iff_right hrepeats]
      constructor
      · rintro ⟨e, hlink, hstage⟩
        by_contra hnone
        rw [stage_eq_encode_of_link hunits (hshares.2 hnone) hlink] at hstage
        cases hstage
      · intro h
        obtain ⟨e, he⟩ := Option.ne_none_iff_exists'.1 fun hnone => hshares.1 hnone h
        exact ⟨e, link_of_visibleDuplicate? hunits he, stage_of_visibleDuplicate? he⟩

/-- Two files that import each other share a function, in another case; the label of that name is in
no way of it. -/
theorem duplicates_of_isAdmissible_cycle :
    ∃ files expanded, expandMacros files = .ok expanded ∧
      (∀ f ∈ expanded, f.IsAdmissible (expanded.map (·.path))) ∧
      ¬ RepeatsName expanded ∧ SharesName expanded := by
  let main : SourceFile :=
    { path := "main.s".toList, text := "import lib.s\nfunction f:\nf:\nret".toList }
  let lib : SourceFile :=
    { path := "lib.s".toList, text := "import main.s\nfunction F:\nret".toList }
  let expanded : List SourceFile :=
    [{ main with text := main.text ++ ['\n'], origins := [1, 2, 3, 4] },
      { lib with text := lib.text ++ ['\n'], origins := [1, 2, 3] }]
  let e : CompileError :=
    { stage := .collect
      cause := .duplicateSymbol .function "F".toList (some "main.s".toList)
      file := some "lib.s".toList }
  have hexpanded : expandMacros [main, lib] = .ok expanded := by decide +kernel
  have hlines : ∀ f ∈ expanded, f.IsAdmissible (expanded.map (·.path)) := by decide +kernel
  have hcompile : compile [main, lib] = .error e := by decide +kernel
  have hcollect : (CompilationUnit.collectAll expanded).isOk := by decide +kernel
  obtain ⟨hrepeats, -, hduplicate⟩ := duplicates_of_isAdmissible hexpanded hlines
  have hnone : ¬ RepeatsName expanded := by
    intro h
    obtain ⟨_, _, _, herror, -⟩ := hrepeats.2 h
    rw [herror] at hcollect
    cases hcollect
  refine ⟨[main, lib], expanded, hexpanded, hlines, hnone, ?_⟩
  exact (hduplicate.1 ⟨e, hcompile, rfl⟩).resolve_left hnone

end RegisterMachine
