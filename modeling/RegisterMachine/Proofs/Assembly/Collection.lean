import RegisterMachine.Assembly.Unit
import RegisterMachine.Proofs.Result

/-!
# What the first pass collects

`CompilationUnit.Takes` says once what taking in a line does to a unit, and `CompilationUnit.Reads`
what a run of lines does. Facts about units are read off these two: a unit counts the instructions
of its file, and its symbols are the declarations of the file, each with the number of instructions
in front of it. `CompilationUnit.Collects` strings the units of all files together.
-/

namespace RegisterMachine

/-- The name that a line declares as a symbol of the given kind. -/
def Line.declared? (kind : SymbolKind) : Line → Option Text
  | .function name => if kind = .function then some name else none
  | .label name => if kind = .label then some name else none
  | _ => none

/-- The instructions among numbered lines. -/
def CodeLine.among (lines : List (Nat × Text)) : List CodeLine :=
  lines.filterMap fun (number, raw) =>
    (Line.classify raw).code?.map fun code => ⟨number, raw, code⟩

/-- How many of the given instructions stand in front of a line. -/
def CodeLine.countBefore (codes : List CodeLine) (number : Nat) : Nat :=
  codes.countP (·.number < number)

/-- The names of a kind that numbered lines declare, with the numbers of their lines. -/
def declaredNames (kind : SymbolKind) (lines : List (Nat × Text)) : List (Nat × Text) :=
  lines.filterMap fun (number, raw) => ((Line.classify raw).declared? kind).map (number, ·)

section Lines

variable {kind : SymbolKind} {number n : Nat} {raw : Text} {lines : List (Nat × Text)}

theorem CodeLine.among_cons :
    among ((number, raw) :: lines) =
      (Line.classify raw).code?.toList.map (fun code => ⟨number, raw, code⟩) ++ among lines := by
  cases h : (Line.classify raw).code? <;> simp [among, h]

theorem declaredNames_cons :
    declaredNames kind ((number, raw) :: lines) =
      ((Line.classify raw).declared? kind).toList.map (fun name => (number, name)) ++
        declaredNames kind lines := by
  cases h : (Line.classify raw).declared? kind <;> simp [declaredNames, h]

theorem CodeLine.exists_mem_of_mem_among {c : CodeLine} (h : c ∈ among lines) :
    (c.number, c.raw) ∈ lines ∧ Line.classify c.raw = .instruction c.code := by
  obtain ⟨⟨number, raw⟩, hmem, hc⟩ := List.mem_filterMap.1 h
  obtain ⟨code, hcode, rfl⟩ := Option.map_eq_some_iff.1 hc
  refine ⟨hmem, ?_⟩
  unfold Line.code? at hcode
  split at hcode
  · rename_i heq
    obtain rfl := Option.some.inj hcode
    exact heq
  · cases hcode

theorem mem_of_mem_declaredNames {name : Text} (h : (n, name) ∈ declaredNames kind lines) :
    ∃ raw, (n, raw) ∈ lines ∧ (Line.classify raw).declared? kind = some name := by
  obtain ⟨⟨number, raw⟩, hmem, hd⟩ := List.mem_filterMap.1 h
  obtain ⟨name', hname, heq⟩ := Option.map_eq_some_iff.1 hd
  obtain ⟨rfl, rfl⟩ := Prod.mk.inj heq
  exact ⟨raw, hmem, hname⟩

theorem CodeLine.countBefore_eq_zero {codes : List CodeLine} (h : ∀ c ∈ codes, n ≤ c.number) :
    countBefore codes n = 0 := by
  refine List.countP_eq_zero.2 fun c hc => ?_
  have := h c hc
  simp only [decide_eq_true_eq]
  omega

/-- Behind the first line, its instruction counts as well if it has one. -/
theorem CodeLine.countBefore_among_cons (h : number < n) :
    countBefore (among ((number, raw) :: lines)) n =
      (Line.classify raw).code?.toList.length + countBefore (among lines) n := by
  cases hc : (Line.classify raw).code? with
  | none => simp [among_cons, hc]
  | some code =>
    simp only [among_cons, hc, countBefore, Option.toList_some, List.map_cons, List.map_nil,
      List.singleton_append, List.countP_cons, h, decide_true, if_true, List.length_singleton]
    omega

end Lines

namespace SourceFile

theorem map_snd_numberedLines (f : SourceFile) :
    f.numberedLines.map (·.2) = Text.lines f.text := by
  rw [numberedLines, List.map_map]
  exact List.zipIdx_map_fst 1 _

theorem pairwise_numberedLines (f : SourceFile) : f.numberedLines.Pairwise (·.1 < ·.1) := by
  have hnumbers : f.numberedLines.map (·.1) = List.range' 1 (Text.lines f.text).length := by
    rw [numberedLines, List.map_map]
    exact List.zipIdx_map_snd 1 _
  have hsorted : (f.numberedLines.map (·.1)).Pairwise (· < ·) := by
    rw [hnumbers]
    exact List.pairwise_lt_range' 1
  exact List.pairwise_map.1 hsorted

theorem mem_numberedLines_iff {f : SourceFile} {n : Nat} {raw : Text} :
    (n, raw) ∈ f.numberedLines ↔ ∃ k, n = k + 1 ∧ (Text.lines f.text)[k]? = some raw := by
  constructor
  · intro h
    obtain ⟨l, hl, heq⟩ := List.mem_map.1 h
    obtain ⟨rfl, rfl⟩ := Prod.mk.inj heq
    obtain ⟨hle, hget⟩ := List.mem_zipIdx_iff_le_and_getElem?_sub.1 hl
    exact ⟨l.2 - 1, (Nat.sub_add_cancel hle).symm, hget⟩
  · rintro ⟨k, rfl, hk⟩
    refine List.mem_map.2 ⟨(raw, k + 1), ?_, rfl⟩
    exact List.mem_zipIdx_iff_le_and_getElem?_sub.2 ⟨Nat.le_add_left 1 k, hk⟩

theorem codeLines_eq (f : SourceFile) : f.codeLines = CodeLine.among f.numberedLines := rfl

end SourceFile

section Positions

variable {α β : Type} [BEq α] [LawfulBEq α] {k : α}

/-- Where no key occurs twice, looking one up finds all there is. -/
theorem lookup_eq_some_iff_mem {l : List (α × β)} (hkeys : (l.map Prod.fst).Nodup) {v : β} :
    l.lookup k = some v ↔ (k, v) ∈ l := by
  rw [List.lookup_eq_some_iff]
  constructor
  · rintro ⟨before, after, rfl, -⟩
    simp
  · intro h
    obtain ⟨before, after, rfl⟩ := List.append_of_mem h
    refine ⟨before, after, rfl, fun x hx => bne_iff_ne.2 fun hk => ?_⟩
    rw [List.map_append, List.map_cons] at hkeys
    exact (List.nodup_append.1 hkeys).2.2 x.1 (List.mem_map_of_mem hx) k (by simp) hk.symm

variable {keys : List α} {base i : Nat}

/-- An index of positions holds what is listed. -/
theorem lookup_zipIdx_eq_none_iff : (keys.zipIdx base).lookup k = none ↔ k ∉ keys := by
  rw [List.lookup_eq_none_iff]
  constructor
  · intro h hk
    obtain ⟨j, hj⟩ := List.mem_iff_getElem?.1 hk
    have hmem : (k, base + j) ∈ keys.zipIdx base := by
      simp [List.mem_zipIdx_iff_le_and_getElem?_sub, hj]
    simpa using h _ hmem
  · intro h x hx
    refine bne_iff_ne.2 fun heq => h ?_
    rw [heq]
    exact List.fst_mem_of_mem_zipIdx hx

/-- An index of positions leads back to what is listed, once the base is taken away. -/
theorem lookup_zipIdx_eq_some_iff (hkeys : keys.Nodup) :
    (keys.zipIdx base).lookup k = some i ↔ base ≤ i ∧ keys[i - base]? = some k := by
  rw [lookup_eq_some_iff_mem (by rwa [List.zipIdx_map_fst])]
  exact List.mem_zipIdx_iff_le_and_getElem?_sub

end Positions

theorem SymbolTable.eq_of_declare? {t t' : SymbolTable} {name : Text} {address : Nat}
    (h : t.declare? name address = some t') :
    t.index.lookup (Text.foldCase name) = none ∧
      t' =
        { t with
          symbols := t.symbols ++ [⟨name, UInt32.ofNat address⟩]
          index := t.index ++ [(Text.foldCase name, t.base + t.symbols.length)] } := by
  unfold declare? at h
  dsimp only at h
  split at h
  · cases h
  · rename_i hfree
    exact ⟨hfree, (Option.some.inj h).symm⟩

namespace StringTable

/-- The index of the table names every literal of the table by its position. -/
def IsIndexed (t : StringTable) : Prop :=
  t.index = t.texts.zipIdx t.base

variable {t : StringTable} {text : Text}

theorem base_intern : (t.intern text).base = t.base := by
  unfold intern
  split <;> rfl

theorem IsIndexed.intern (h : t.IsIndexed) : (t.intern text).IsIndexed := by
  unfold StringTable.intern
  split
  · exact h
  · simp only [IsIndexed] at h ⊢
    rw [h, List.zipIdx_append]
    rfl

theorem IsIndexed.lt_of_lookup {i : Nat} (h : t.IsIndexed) (hi : t.index.lookup text = some i) :
    i < t.base + t.texts.length := by
  obtain ⟨before, after, heq, -⟩ := List.lookup_eq_some_iff.1 hi
  have hmem : (text, i) ∈ t.texts.zipIdx t.base := by
    rw [← h, heq]
    simp
  exact (List.mem_zipIdx hmem).2.1

end StringTable

namespace CompilationUnit

/-- What taking in a line does to a unit. -/
inductive Takes (paths : List Text) (u : CompilationUnit) (number : Nat) (raw : Text) :
    CompilationUnit → Prop
  | skip (h : Line.classify raw = .blank ∨ Line.classify raw = .comment) : Takes paths u number raw u
  | importOf {path : Text} (h : Line.classify raw = .importOf path) (hne : path ≠ u.path)
    (hpath : path ∈ paths) : Takes paths u number raw { u with imports := u.imports ++ [path] }
  | function {name : Text} {t : SymbolTable} (h : Line.classify raw = .function name)
    (hname : isSymbolName name) (ht : u.functions.declare? name u.address = some t) :
    Takes paths u number raw { u with functions := t }
  | label {name : Text} {t : SymbolTable} (h : Line.classify raw = .label name)
    (hname : isSymbolName name) (ht : u.labels.declare? name u.address = some t) :
    Takes paths u number raw { u with labels := t }
  | plain {code : Text} (h : Line.classify raw = .instruction code)
    (hload : isStringLoad code = false) :
    Takes paths u number raw { u with instructionCount := u.instructionCount + 1 }
  | stringLoad {code literal : Text} (h : Line.classify raw = .instruction code)
    (hload : isStringLoad code = true) (hquoted : Text.quoted? code = some literal) :
    Takes paths u number raw
      { u with
        strings := u.strings.intern literal
        stringLines := u.stringLines ++ [(number, raw)]
        instructionCount := u.instructionCount + 1 }

variable {paths : List Text} {u u₁ u' : CompilationUnit} {number : Nat} {raw : Text}
variable {lines : List (Nat × Text)}

theorem takes_of_addLine (h : u.addLine paths number raw = .ok u') :
    u.Takes paths number raw u' := by
  unfold addLine at h
  split at h <;> rename_i hline
  · cases h
    exact .skip (.inl hline)
  · cases h
    exact .skip (.inr hline)
  · unfold addImport at h
    split at h
    · cases h
    · rename_i hne
      split at h <;> cases h
      exact .importOf hline hne (by assumption)
  · unfold declare at h
    split at h
    · rename_i hname
      dsimp only at h
      split at h <;> cases h
      exact .function hline hname (by assumption)
    · cases h
  · unfold declare at h
    split at h
    · rename_i hname
      dsimp only at h
      split at h <;> cases h
      exact .label hline hname (by assumption)
    · cases h
  · unfold addInstruction at h
    split at h
    · rename_i hload
      split at h <;> cases h
      exact .stringLoad hline hload (by assumption)
    · rename_i hload
      cases h
      exact .plain hline (Bool.not_eq_true _ ▸ hload)

theorem addLine_of_takes (h : u.Takes paths number raw u') :
    u.addLine paths number raw = .ok u' := by
  unfold addLine
  cases h with
  | skip h => rcases h with h | h <;> rw [h]
  | importOf h hne hpath =>
    rw [h]
    simp [addImport, hne, hpath]
  | function h hname ht | label h hname ht =>
    rw [h]
    simp [declare, hname, ht]
  | plain h hload =>
    rw [h]
    simp [addInstruction, hload]
  | stringLoad h hload hquoted =>
    rw [h]
    simp [addInstruction, hload, hquoted]

/-- What the lines of a file leave as it is. -/
structure SameOrigin (u u' : CompilationUnit) : Prop where
  path : u'.path = u.path
  base : u'.base = u.base
  base_functions : u'.functions.base = u.functions.base
  base_labels : u'.labels.base = u.labels.base
  base_strings : u'.strings.base = u.strings.base

theorem Takes.sameOrigin (h : u.Takes paths number raw u') : u.SameOrigin u' := by
  cases h with
  | skip => exact ⟨rfl, rfl, rfl, rfl, rfl⟩
  | importOf => exact ⟨rfl, rfl, rfl, rfl, rfl⟩
  | function _ _ ht =>
    obtain ⟨-, rfl⟩ := SymbolTable.eq_of_declare? ht
    exact ⟨rfl, rfl, rfl, rfl, rfl⟩
  | label _ _ ht =>
    obtain ⟨-, rfl⟩ := SymbolTable.eq_of_declare? ht
    exact ⟨rfl, rfl, rfl, rfl, rfl⟩
  | plain => exact ⟨rfl, rfl, rfl, rfl, rfl⟩
  | stringLoad => exact ⟨rfl, rfl, rfl, rfl, StringTable.base_intern⟩

theorem Takes.instructionCount (h : u.Takes paths number raw u') :
    u'.instructionCount = u.instructionCount + (Line.classify raw).code?.toList.length := by
  cases h with
  | skip h => rcases h with h | h <;> simp [h, Line.code?]
  | importOf h | function h | label h | plain h | stringLoad h => simp [h, Line.code?]

theorem Takes.symbols (h : u.Takes paths number raw u') (kind : SymbolKind) :
    u'.symbols kind = u.symbols kind ++
      ((Line.classify raw).declared? kind).toList.map (⟨·, UInt32.ofNat u.address⟩) := by
  cases h with
  | skip h => rcases h with h | h <;> simp [h, Line.declared?]
  | importOf h | plain h | stringLoad h => cases kind <;> simp [h, Line.declared?, symbols]
  | function h _ ht | label h _ ht =>
    obtain ⟨-, rfl⟩ := SymbolTable.eq_of_declare? ht
    cases kind <;> simp [h, Line.declared?, symbols]

theorem Takes.isIndexed_strings (h : u.Takes paths number raw u') (hu : u.strings.IsIndexed) :
    u'.strings.IsIndexed := by
  cases h with
  | stringLoad => exact hu.intern
  | _ => exact hu

/-- What taking in lines one after the other does to a unit. -/
inductive Reads (paths : List Text) : CompilationUnit → List (Nat × Text) → CompilationUnit → Prop
  | nil (u : CompilationUnit) : Reads paths u [] u
  | cons {u u₁ u' : CompilationUnit} {number : Nat} {raw : Text} {lines : List (Nat × Text)}
    (h : u.Takes paths number raw u₁) (hs : Reads paths u₁ lines u') :
    Reads paths u ((number, raw) :: lines) u'

theorem collectLine_eq_ok_iff {f : SourceFile} {line : Nat × Text} :
    collectLine paths f u line = .ok u' ↔ u.addLine paths line.1 line.2 = .ok u' := by
  unfold collectLine
  cases u.addLine paths line.1 line.2 <;> simp

theorem of_collectLine_eq_error {f : SourceFile} {line : Nat × Text} {e : CompileError}
    (h : collectLine paths f u line = .error e) :
    u.addLine paths line.1 line.2 = .error e.cause ∧ e.stage = .collect := by
  unfold collectLine at h
  split at h <;> cases h
  exact ⟨‹_›, rfl⟩

theorem reads_of_collect {base : Offsets} {f : SourceFile} (h : collect paths base f = .ok u') :
    (empty f.path base).Reads paths f.numberedLines u' := by
  unfold collect at h
  generalize empty f.path base = u at h
  generalize f.numberedLines = lines at h
  induction lines generalizing u with
  | nil =>
    obtain rfl := pure_eq_ok_iff.1 h
    exact .nil u
  | cons line lines ih =>
    rw [List.foldlM_cons] at h
    obtain ⟨u₁, hline, h⟩ := bind_eq_ok_iff.1 h
    exact .cons (takes_of_addLine (collectLine_eq_ok_iff.1 hline)) (ih _ h)

theorem collect_of_reads {base : Offsets} {f : SourceFile}
    (h : (empty f.path base).Reads paths f.numberedLines u') : collect paths base f = .ok u' := by
  unfold collect
  generalize empty f.path base = u at h
  generalize f.numberedLines = lines at h
  induction h with
  | nil => rfl
  | cons h _ ih =>
    rw [List.foldlM_cons, collectLine_eq_ok_iff.2 (addLine_of_takes h)]
    exact ih

theorem SameOrigin.trans (h₁ : u.SameOrigin u₁) (h₂ : u₁.SameOrigin u') : u.SameOrigin u' where
  path := h₂.path.trans h₁.path
  base := h₂.base.trans h₁.base
  base_functions := h₂.base_functions.trans h₁.base_functions
  base_labels := h₂.base_labels.trans h₁.base_labels
  base_strings := h₂.base_strings.trans h₁.base_strings

theorem Reads.sameOrigin (h : u.Reads paths lines u') : u.SameOrigin u' := by
  induction h with
  | nil => exact ⟨rfl, rfl, rfl, rfl, rfl⟩
  | cons h _ ih => exact h.sameOrigin.trans ih

theorem Reads.instructionCount (h : u.Reads paths lines u') :
    u'.instructionCount = u.instructionCount + (CodeLine.among lines).length := by
  induction h with
  | nil => rfl
  | cons h _ ih =>
    rw [ih, h.instructionCount, CodeLine.among_cons, List.length_append, List.length_map]
    omega

/-- What every line keeps, a file keeps. -/
theorem Reads.preserves {P : CompilationUnit → Prop} (h : u.Reads paths lines u')
    (hstep : ∀ {u u₁ number raw}, u.Takes paths number raw u₁ → P u → P u₁) (hu : P u) : P u' := by
  induction h with
  | nil => exact hu
  | cons h _ ih => exact ih (hstep h hu)

theorem Reads.exists_takes (h : u.Reads paths lines u') (hl : (number, raw) ∈ lines) :
    ∃ v v' : CompilationUnit, v.Takes paths number raw v' := by
  induction h with
  | nil => cases hl
  | cons h _ ih =>
    rcases List.mem_cons.1 hl with heq | hl
    · obtain ⟨rfl, rfl⟩ := Prod.mk.inj heq
      exact ⟨_, _, h⟩
    · exact ih hl

theorem Reads.isIndexed_strings (h : u.Reads paths lines u') (hu : u.strings.IsIndexed) :
    u'.strings.IsIndexed :=
  h.preserves (P := fun u => u.strings.IsIndexed) Takes.isIndexed_strings hu

theorem Takes.forall_mem_imports (h : u.Takes paths number raw u')
    (hu : ∀ path ∈ u.imports, path ∈ paths) : ∀ path ∈ u'.imports, path ∈ paths := by
  cases h with
  | importOf _ _ hpath => simpa [or_imp, forall_and, hpath] using hu
  | _ => exact hu

/-- Every declaration gets the address of the next instruction, as the lines are numbered in order. -/
theorem Reads.symbols (h : u.Reads paths lines u') (hlines : lines.Pairwise (·.1 < ·.1))
    (kind : SymbolKind) :
    u'.symbols kind = u.symbols kind ++ (declaredNames kind lines).map fun d =>
      ⟨d.2, UInt32.ofNat (u.address + CodeLine.countBefore (CodeLine.among lines) d.1)⟩ := by
  induction h with
  | nil => simp [declaredNames]
  | @cons u u₁ u' number raw lines h hs ih =>
    obtain ⟨hfirst, hlines⟩ := List.pairwise_cons.1 hlines
    -- no instruction is in front of the first line, and the first line is in front of all others
    have haddress : u₁.address = u.address + (Line.classify raw).code?.toList.length := by
      rw [address, h.sameOrigin.base, h.instructionCount, address]
      omega
    have hhead : CodeLine.countBefore (CodeLine.among ((number, raw) :: lines)) number = 0 := by
      refine CodeLine.countBefore_eq_zero fun c hc => ?_
      rcases List.mem_cons.1 (CodeLine.exists_mem_of_mem_among hc).1 with heq | hc
      · exact Nat.le_of_eq (Prod.mk.inj heq).1.symm
      · exact Nat.le_of_lt (hfirst _ hc)
    have htail : ∀ d ∈ declaredNames kind lines,
        u₁.address + CodeLine.countBefore (CodeLine.among lines) d.1 =
          u.address + CodeLine.countBefore (CodeLine.among ((number, raw) :: lines)) d.1 := by
      rintro ⟨line, name⟩ hd
      obtain ⟨_, hmem, -⟩ := mem_of_mem_declaredNames hd
      have hlt : number < line := hfirst _ hmem
      dsimp only
      rw [haddress, CodeLine.countBefore_among_cons hlt]
      omega
    rw [ih hlines, h.symbols, declaredNames_cons, List.map_append, List.append_assoc, List.map_map]
    congr 2
    · simp [Function.comp_def, hhead]
    · exact List.map_congr_left fun d hd => by rw [htail d hd]

/-- A unit that holds what the lines of a file say, with the totals of the files before it. -/
structure IsCollected (start : Offsets) (f : SourceFile) (u : CompilationUnit) : Prop where
  base : u.base = start
  instructionCount : u.instructionCount = f.codeLines.length
  symbols (kind : SymbolKind) :
    u.symbols kind = (declaredNames kind f.numberedLines).map fun d =>
      ⟨d.2, UInt32.ofNat (start.instruction + CodeLine.countBefore f.codeLines d.1)⟩
  base_strings : u.strings.base = start.string
  isIndexed_strings : u.strings.IsIndexed

theorem isCollected_of_collect {base : Offsets} {f : SourceFile}
    (h : collect paths base f = .ok u) : u.IsCollected base f := by
  have hreads := reads_of_collect h
  have horigin := hreads.sameOrigin
  have hcount := hreads.instructionCount
  refine ⟨horigin.base, ?_, fun kind => ?_, horigin.base_strings, hreads.isIndexed_strings rfl⟩
  · rw [hcount, f.codeLines_eq]
    exact Nat.zero_add _
  · have hnone : (empty f.path base).symbols kind = [] := by cases kind <;> rfl
    rw [hreads.symbols f.pairwise_numberedLines, hnone]
    rfl

/-- Units that are collected one after the other, each at the totals of those before it. -/
inductive Collects (paths : List Text) :
    Offsets → List SourceFile → List CompilationUnit → Prop
  | nil (base : Offsets) : Collects paths base [] []
  | cons {base : Offsets} {f : SourceFile} {fs : List SourceFile} {u : CompilationUnit}
    {us : List CompilationUnit} (h : collect paths base f = .ok u)
    (hs : Collects paths u.offsetsAfter fs us) : Collects paths base (f :: fs) (u :: us)

variable {base : Offsets} {files : List SourceFile} {units : List CompilationUnit}

theorem collects_of_collectPrefix (h : collectPrefix paths base files = (units, none)) :
    Collects paths base files units := by
  induction files generalizing base units with
  | nil =>
    cases h
    exact .nil base
  | cons f fs ih =>
    unfold collectPrefix at h
    split at h
    · cases h
    · rename_i u hu
      obtain ⟨rfl, hnone⟩ := Prod.mk.inj h
      exact .cons hu (ih (Prod.ext rfl hnone))

theorem collects_of_collectAll (h : collectAll files = .ok units) :
    Collects (files.map (·.path)) {} files units := by
  unfold collectAll at h
  split at h <;> cases h
  exact collects_of_collectPrefix (by assumption)

theorem collectPrefix_of_collects (h : Collects paths base files units) :
    collectPrefix paths base files = (units, none) := by
  induction h with
  | nil => rfl
  | cons h _ ih =>
    unfold collectPrefix
    rw [h]
    dsimp only
    rw [ih]

theorem collectAll_eq_ok_iff :
    collectAll files = .ok units ↔ Collects (files.map (·.path)) {} files units := by
  refine ⟨collects_of_collectAll, fun h => ?_⟩
  unfold collectAll
  rw [collectPrefix_of_collects h]

theorem Collects.forall₂ (h : Collects paths base files units) :
    List.Forall₂ (fun f u => u.IsCollected u.base f) files units := by
  induction h with
  | nil => exact .nil
  | @cons base f fs u us h _ ih =>
    have hu := isCollected_of_collect h
    exact .cons (hu.base.symm ▸ hu) ih

theorem Collects.foldl_instructionCount (h : Collects paths base files units) (n : Nat) :
    units.foldl (· + ·.instructionCount) n = n + (files.flatMap (·.codeLines)).length := by
  induction h generalizing n with
  | nil => rfl
  | cons h _ ih =>
    rw [List.foldl_cons, ih, (isCollected_of_collect h).instructionCount, List.flatMap_cons,
      List.length_append]
    omega

/-- No unit goes beyond the totals of all files. -/
theorem Collects.offsets_le (h : Collects paths base files units) (hu : u ∈ units) :
    u.base.instruction + u.instructionCount ≤
        base.instruction + (files.flatMap (·.codeLines)).length ∧
      u.base.string + u.strings.texts.length ≤
        base.string + (units.flatMap (·.strings.texts)).length := by
  induction h with
  | nil => cases hu
  | @cons base f fs v us h _ ih =>
    have hv := isCollected_of_collect h
    have hcount := hv.instructionCount
    have hbase := hv.base
    simp only [List.flatMap_cons, List.length_append]
    rcases List.mem_cons.1 hu with rfl | hu
    · rw [hbase]
      omega
    · have hrest := ih hu
      simp only [offsetsAfter, hbase] at hrest
      omega

/-- The imports of a unit are among the files compiled together. -/
theorem Collects.forall_mem_imports (h : Collects paths base files units) :
    ∀ u ∈ units, ∀ path ∈ u.imports, path ∈ paths := by
  induction h with
  | nil => simp
  | cons h _ ih =>
    refine List.forall_mem_cons.2 ⟨?_, ih⟩
    exact (reads_of_collect h).preserves (P := fun u => ∀ path ∈ u.imports, path ∈ paths)
      Takes.forall_mem_imports (by simp [empty])

theorem Collects.map_path (h : Collects paths base files units) :
    units.map (·.path) = files.map (·.path) := by
  induction h with
  | nil => rfl
  | cons h _ ih =>
    rw [List.map_cons, List.map_cons, ih, (reads_of_collect h).sameOrigin.path]
    rfl

theorem stage_of_collectPrefix {e : CompileError}
    (h : collectPrefix paths base files = (units, some e)) : e.stage = .collect := by
  induction files generalizing base units with
  | nil => cases h
  | cons f fs ih =>
    unfold collectPrefix at h
    split at h
    · rename_i hf
      cases h
      obtain ⟨_, _, -, hline⟩ := exists_mem_of_foldlM_eq_error hf
      exact (of_collectLine_eq_error hline).2
    · obtain ⟨-, hsome⟩ := Prod.mk.inj h
      exact ih (Prod.ext rfl hsome)

theorem stage_of_collectAll {e : CompileError} (h : collectAll files = .error e) :
    e.stage = .collect := by
  unfold collectAll at h
  split at h <;> cases h
  exact stage_of_collectPrefix (by assumption)

end CompilationUnit

end RegisterMachine
