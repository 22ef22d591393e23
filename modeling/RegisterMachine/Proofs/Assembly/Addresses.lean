import Mathlib.Algebra.Group.Nat.Defs
import RegisterMachine.Proofs.Assembly.Linking

/-!
# Addresses

Where names lead to in a linked program. The first pass counts the instructions in front of a
declaration; the second pass puts as many into the linked program. The address of a declaration is
therefore the position of the first instruction behind it (`Declaration.exists_append`), and the
tables of the program list the declarations as they stand in the files.
-/

namespace RegisterMachine

/-- A declaration of a name, by the position of its file and the number of its line. -/
structure Declaration where
  name : Text
  file : Nat
  line : Nat
  deriving DecidableEq, Repr

/-- The declarations of a kind in link order. -/
def declarations (kind : SymbolKind) (files : List SourceFile) : List Declaration :=
  files.zipIdx.flatMap fun (f, i) =>
    (declaredNames kind f.numberedLines).map fun (line, name) => ⟨name, i, line⟩

namespace Declaration

/-- The number of instructions in front of a declaration: those of all earlier files, and those on
earlier lines of its own file. -/
def address (files : List SourceFile) (d : Declaration) : Nat :=
  ((files.take d.file).flatMap (·.codeLines)).length +
    match files[d.file]? with
    | some f => CodeLine.countBefore f.codeLines d.line
    | none => 0

/-- Whether a declaration stands in front of an instruction, in link order. -/
def Precedes (d : Declaration) (line : Nat × CodeLine) : Prop :=
  d.file < line.1 ∨ d.file = line.1 ∧ d.line < line.2.number

instance (d : Declaration) (line : Nat × CodeLine) : Decidable (d.Precedes line) :=
  inferInstanceAs (Decidable (_ ∨ _))

variable {files : List SourceFile} {kind : SymbolKind} {d : Declaration}

theorem exists_of_mem_declarations (h : d ∈ declarations kind files) :
    ∃ f raw, files[d.file]? = some f ∧ (d.line, raw) ∈ f.numberedLines ∧
      (Line.classify raw).declared? kind = some d.name := by
  obtain ⟨⟨f, i⟩, hf, hd⟩ := List.mem_flatMap.1 h
  obtain ⟨⟨line, name⟩, hname, rfl⟩ := List.mem_map.1 hd
  obtain ⟨raw, hraw, hdeclared⟩ := mem_of_mem_declaredNames hname
  exact ⟨f, raw, List.mem_zipIdx_iff_getElem?.1 hf, hraw, hdeclared⟩

end Declaration

theorem SourceFile.pairwise_codeLines (f : SourceFile) :
    f.codeLines.Pairwise (·.number < ·.number) := by
  refine f.pairwise_numberedLines.filterMap _ ?_
  rintro ⟨m, raw⟩ ⟨n, raw'⟩ hlt c hc c' hc'
  obtain ⟨code, -, rfl⟩ := Option.map_eq_some_iff.1 hc
  obtain ⟨code', -, rfl⟩ := Option.map_eq_some_iff.1 hc'
  exact hlt

/-- The instructions in front of a line come first. -/
theorem CodeLine.exists_append_of_pairwise {codes : List CodeLine} (n : Nat)
    (h : codes.Pairwise (·.number < ·.number)) :
    ∃ before after, codes = before ++ after ∧ before.length = countBefore codes n ∧
      (∀ c ∈ before, c.number < n) ∧ ∀ c ∈ after, n ≤ c.number := by
  induction codes with
  | nil => exact ⟨[], [], rfl, rfl, by simp, by simp⟩
  | cons c codes ih =>
    obtain ⟨hfirst, hcodes⟩ := List.pairwise_cons.1 h
    by_cases hc : c.number < n
    · obtain ⟨before, after, rfl, hlength, hbefore, hafter⟩ := ih hcodes
      refine ⟨c :: before, after, rfl, ?_, ?_, hafter⟩
      · rw [List.length_cons, hlength]
        simp [countBefore, hc]
      · exact List.forall_mem_cons.2 ⟨hc, hbefore⟩
    · have hall : ∀ c' ∈ c :: codes, n ≤ c'.number := by
        refine List.forall_mem_cons.2 ⟨by omega, fun c' hc' => ?_⟩
        have := hfirst c' hc'
        omega
      exact ⟨[], c :: codes, rfl, (countBefore_eq_zero hall).symm, by simp, hall⟩

/-- The instructions of one file stand behind those of earlier files and in front of those of later
files. -/
theorem exists_append_of_getElem? {files : List SourceFile} {i : Nat} {f : SourceFile}
    (h : files[i]? = some f) :
    ∃ earlier later, linkedLines files = earlier ++ f.codeLines.map (i, ·) ++ later ∧
      earlier.length = ((files.take i).flatMap (·.codeLines)).length ∧
      (∀ x ∈ earlier, x.1 < i) ∧ ∀ x ∈ later, i < x.1 := by
  obtain ⟨hi, rfl⟩ := List.getElem?_eq_some_iff.1 h
  refine ⟨linkedLines (files.take i),
    ((files.drop (i + 1)).zipIdx (i + 1)).flatMap fun (f, j) => f.codeLines.map (j, ·), ?_,
    length_linkedLines _, ?_, ?_⟩
  · have hlength : (files.take i).length = i := by
      rw [List.length_take]
      omega
    conv_lhs => rw [← List.take_append_drop i files, List.drop_eq_getElem_cons hi]
    rw [linkedLines, List.zipIdx_append, List.zipIdx_cons, List.flatMap_append, List.flatMap_cons,
      hlength, Nat.zero_add, ← List.append_assoc]
    rfl
  · intro x hx
    obtain ⟨⟨g, j⟩, hg, hx⟩ := List.mem_flatMap.1 hx
    obtain ⟨c, -, rfl⟩ := List.mem_map.1 hx
    have := List.snd_lt_of_mem_zipIdx hg
    rw [List.length_take] at this
    dsimp only at this ⊢
    omega
  · intro x hx
    obtain ⟨⟨g, j⟩, hg, hx⟩ := List.mem_flatMap.1 hx
    obtain ⟨c, -, rfl⟩ := List.mem_map.1 hx
    have := List.le_snd_of_mem_zipIdx hg
    exact this

theorem SourceFile.eq_of_mem_numberedLines {f : SourceFile} {n : Nat} {raw raw' : Text}
    (h : (n, raw) ∈ f.numberedLines) (h' : (n, raw') ∈ f.numberedLines) : raw = raw' := by
  obtain ⟨k, rfl, hk⟩ := mem_numberedLines_iff.1 h
  obtain ⟨k', heq, hk'⟩ := mem_numberedLines_iff.1 h'
  obtain rfl := Nat.succ.inj heq
  exact Option.some.inj (hk.symm.trans hk')

namespace Declaration

variable {files : List SourceFile} {kind : SymbolKind} {d : Declaration}

/-- A declaration is not an instruction. -/
theorem line_ne_number {f : SourceFile} (h : d ∈ declarations kind files)
    (hf : files[d.file]? = some f) {c : CodeLine} (hc : c ∈ f.codeLines) : d.line ≠ c.number := by
  intro heq
  obtain ⟨g, raw, hg, hraw, hdeclared⟩ := exists_of_mem_declarations h
  obtain rfl := Option.some.inj (hg.symm.trans hf)
  obtain ⟨hmem, hcode⟩ := CodeLine.exists_mem_of_mem_among hc
  rw [← heq] at hmem
  obtain rfl := SourceFile.eq_of_mem_numberedLines hraw hmem
  rw [hcode] at hdeclared
  cases hdeclared

/-- The address of a declaration cuts the instructions of all files in two: those in front of the
declaration and those behind it. -/
theorem exists_append (h : d ∈ declarations kind files) :
    ∃ before after, linkedLines files = before ++ after ∧ before.length = d.address files ∧
      (∀ x ∈ before, ¬ d.Precedes x) ∧ ∀ x ∈ after, d.Precedes x := by
  obtain ⟨f, -, hf, -, -⟩ := exists_of_mem_declarations h
  obtain ⟨earlier, later, hlines, hearlier, hlt, hgt⟩ := exists_append_of_getElem? hf
  obtain ⟨before, after, hcodes, hbefore, hnumber, hnumber'⟩ :=
    CodeLine.exists_append_of_pairwise d.line f.pairwise_codeLines
  refine ⟨earlier ++ before.map (d.file, ·), after.map (d.file, ·) ++ later, ?_, ?_, ?_, ?_⟩
  · rw [hlines, hcodes]
    simp
  · simp [address, hf, hearlier, hbefore]
  · intro x hx
    rcases List.mem_append.1 hx with hx | hx
    · have hfile := hlt x hx
      rintro (hafter | ⟨heq, -⟩) <;> omega
    · obtain ⟨c, hc, rfl⟩ := List.mem_map.1 hx
      have hline := hnumber c hc
      rintro (hafter | ⟨-, hafter⟩) <;> dsimp only at hafter <;> omega
  · intro x hx
    rcases List.mem_append.1 hx with hx | hx
    · obtain ⟨c, hc, rfl⟩ := List.mem_map.1 hx
      have hmem : c ∈ f.codeLines := by
        rw [hcodes]
        exact List.mem_append_right _ hc
      -- the declaration stands on no instruction, so the bound is strict
      have hle := hnumber' c hc
      have hne := line_ne_number h hf hmem
      exact .inr ⟨rfl, by dsimp only; omega⟩
    · exact .inl (hgt x hx)

theorem address_le (h : d ∈ declarations kind files) :
    d.address files ≤ (linkedLines files).length := by
  obtain ⟨before, after, hlines, hlength, -, -⟩ := exists_append h
  rw [hlines, ← hlength, List.length_append]
  omega

/-- The first instruction behind a declaration is the one at its address. -/
theorem find?_precedes (h : d ∈ declarations kind files) :
    (linkedLines files).find? (d.Precedes ·) = (linkedLines files)[d.address files]? := by
  obtain ⟨before, after, hlines, hlength, hbefore, hafter⟩ := exists_append h
  have hnone : before.find? (d.Precedes ·) = none := by
    refine List.find?_eq_none.2 fun x hx => ?_
    simp [hbefore x hx]
  rw [hlines, List.find?_append, hnone, ← hlength, List.getElem?_append_right (Nat.le_refl _),
    Nat.sub_self]
  cases after with
  | nil => rfl
  | cons x after =>
    have hx := hafter x List.mem_cons_self
    simp [hx]

end Declaration

namespace CompilationUnit

variable {paths : List Text} {base : Offsets} {files : List SourceFile}
  {units : List CompilationUnit}

/-- A unit starts where the instructions of all earlier files end. -/
theorem Collects.base_instruction (h : Collects paths base files units) {i : Nat}
    {u : CompilationUnit} (hu : units[i]? = some u) :
    u.base.instruction =
      base.instruction + ((files.take i).flatMap (·.codeLines)).length := by
  induction h generalizing i with
  | nil => cases hu
  | @cons base f fs v us h _ ih =>
    have hv := isCollected_of_collect h
    cases i with
    | zero =>
      obtain rfl := Option.some.inj hu
      rw [hv.base]
      rfl
    | succ i =>
      have hstart : v.offsetsAfter.instruction = base.instruction + f.codeLines.length := by
        rw [offsetsAfter, hv.base, hv.instructionCount]
      rw [ih hu, hstart, List.take_succ_cons, List.flatMap_cons, List.length_append]
      omega

/-- The table of a unit lists the declarations of its file, each with its address. -/
theorem Collects.symbols_eq (h : Collects paths {} files units) {i : Nat} {f : SourceFile}
    {u : CompilationUnit} (hf : files[i]? = some f) (hu : units[i]? = some u) (kind : SymbolKind) :
    u.symbols kind = (declaredNames kind f.numberedLines).map fun (line, name) =>
      ⟨name, UInt32.ofNat (Declaration.address files ⟨name, i, line⟩)⟩ := by
  rw [(rel_of_getElem? h.forall₂ hf hu).symbols kind, h.base_instruction hu]
  simp [Declaration.address, hf]

/-- The tables of all units list the declarations of all files. -/
theorem Collects.flatMap_symbols (h : Collects paths {} files units) (kind : SymbolKind) :
    units.flatMap (·.symbols kind) =
      (declarations kind files).map fun d => ⟨d.name, UInt32.ofNat (d.address files)⟩ := by
  have hlength := h.forall₂.length_eq
  have hunits : units.map (·.symbols kind) = files.zipIdx.map fun (f, i) =>
      (declaredNames kind f.numberedLines).map fun (line, name) =>
        ⟨name, UInt32.ofNat (Declaration.address files ⟨name, i, line⟩)⟩ := by
    refine List.ext_getElem? fun i => ?_
    rw [List.getElem?_map, List.getElem?_map, List.getElem?_zipIdx, Nat.zero_add]
    cases hf : files[i]? with
    | none =>
      have hu : units[i]? = none := by
        rw [List.getElem?_eq_none_iff] at hf ⊢
        omega
      rw [hu]
      rfl
    | some f =>
      obtain ⟨hi, -⟩ := List.getElem?_eq_some_iff.1 hf
      have hu : units[i]? = some units[i] := List.getElem?_eq_getElem (hlength ▸ hi)
      rw [hu]
      exact congrArg some (h.symbols_eq hf hu kind)
  rw [List.flatMap, hunits, declarations, List.map_flatMap, List.flatMap]
  simp only [List.map_map]
  rfl

end CompilationUnit

/-- A program whose tables list the declarations of files in link order, each with the position at
which the first instruction behind it stands, or with the length of the program if none follows. -/
structure Program.IsLaidOut (p : Program) (c : Collection) (files : List SourceFile) : Prop where
  functions :
    p.functions.toList.map (fun s => (s.name, s.address.toNat)) =
      (declarations .function files).map fun d => (d.name, d.address files)
  labels :
    p.labels.toList.map (fun s => (s.name, s.address.toNat)) =
      (declarations .label files).map fun d => (d.name, d.address files)
  next (kind : SymbolKind) : ∀ d ∈ declarations kind files,
    match (linkedLines files).find? (d.Precedes ·) with
    | none => d.address files = p.size
    | some line =>
      ∃ x, Link.Encodes c files line x ∧ p.instructions[d.address files]? = some x.1 ∧
        p.locations[d.address files]? = some x.2

section Link

variable {files : List SourceFile} {units : List CompilationUnit}
  {code : List (Instruction × SourceLocation)}

theorem isLaidOut_program (hunits : CompilationUnit.collectAll files = .ok units)
    (hcode : Link.code (.ofUnits units) files = .ok code) (hsize : code.length < 2 ^ 32) :
    (Link.program units code).IsLaidOut (.ofUnits units) files := by
  have hcollects := CompilationUnit.collects_of_collectAll hunits
  have hall := hcollects.encodes hcode
  have hlength := hall.length_eq
  have hexact {kind : SymbolKind} {d : Declaration} (hd : d ∈ declarations kind files) :
      (UInt32.ofNat (d.address files)).toNat = d.address files := by
    have hle := Declaration.address_le hd
    rw [UInt32.toNat_ofNat', Nat.mod_eq_of_lt (by omega)]
  have htable (kind : SymbolKind) :
      (units.flatMap (·.symbols kind)).map (fun s => (s.name, s.address.toNat)) =
        (declarations kind files).map fun d => (d.name, d.address files) := by
    rw [hcollects.flatMap_symbols, List.map_map]
    refine List.map_congr_left fun d hd => ?_
    simp [hexact hd]
  refine ⟨htable .function, htable .label, fun kind d hd => ?_⟩
  rw [Declaration.find?_precedes hd]
  cases hline : (linkedLines files)[d.address files]? with
  | none =>
    have hle := Declaration.address_le hd
    have hge := List.getElem?_eq_none_iff.1 hline
    dsimp only
    rw [Link.size_program]
    omega
  | some line =>
    obtain ⟨ha, rfl⟩ := List.getElem?_eq_some_iff.1 hline
    have ha' : d.address files < code.length := hlength ▸ ha
    exact ⟨code[d.address files], hall.get ha ha', by simp [Link.program, ha'],
      by simp [Link.program, ha']⟩

end Link

/-- Every name of a compiled program leads to the first instruction behind its declaration in link
order, whichever files the two stand in. -/
theorem isLaidOut_of_compile {files : List SourceFile} {p : Program} (h : compile files = .ok p)
    (hsize : p.size < 2 ^ 32) :
    ∃ expanded units, expandMacros files = .ok expanded ∧
      CompilationUnit.collectAll expanded = .ok units ∧ p.IsLaidOut (.ofUnits units) expanded := by
  obtain ⟨expanded, hexpanded, hlink⟩ := bind_eq_ok_iff.1 h
  obtain ⟨units, code, hunits, hcode, rfl, -⟩ := eq_program_of_link hlink
  rw [Link.size_program] at hsize
  exact ⟨expanded, units, hexpanded, hunits, isLaidOut_program hunits hcode hsize⟩

/-- A label at the end of one file leads into the next one, and a label at the end of all files to
the end of the program. -/
theorem isLaidOut_of_compile_two_files :
    ∃ files p, compile files = .ok p ∧ p.functions = #[⟨"f".toList, 2⟩] ∧
      p.labels = #[⟨"l".toList, 2⟩, ⟨"end".toList, 4⟩] ∧ p.size < 2 ^ 32 ∧
      ∃ expanded units, expandMacros files = .ok expanded ∧
        CompilationUnit.collectAll expanded = .ok units ∧
        p.IsLaidOut (.ofUnits units) expanded := by
  let main : SourceFile :=
    { path := "main.s".toList, text := "import lib.s\ncall f ; twice\ncall f\nl:".toList }
  let lib : SourceFile :=
    { path := "lib.s".toList
      text := "; doubles R0\nfunction f:\n\nadd R0, R0\nret\nend:".toList }
  let p : Program :=
    { instructions :=
        #[⟨.call, [.target 2]⟩, ⟨.call, [.target 2]⟩, ⟨.add, [.register 0, .register 0]⟩, ⟨.ret, []⟩]
      functions := #[⟨"f".toList, 2⟩]
      labels := #[⟨"l".toList, 2⟩, ⟨"end".toList, 4⟩]
      locations :=
        #[⟨"main.s".toList, 2, "call f".toList⟩, ⟨"main.s".toList, 3, "call f".toList⟩,
          ⟨"lib.s".toList, 4, "add R0, R0".toList⟩, ⟨"lib.s".toList, 5, "ret".toList⟩] }
  have hp : compile [main, lib] = .ok p := by decide +kernel
  have hsize : p.size < 2 ^ 32 := by decide
  exact ⟨[main, lib], p, hp, rfl, rfl, hsize, isLaidOut_of_compile hp hsize⟩

end RegisterMachine
