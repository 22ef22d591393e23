import RegisterMachine.Assembly.Link
import RegisterMachine.Proofs.Result

/-!
# What the second pass encodes

The second pass makes one instruction of every line that is one, in the order of the files and of
their lines (`linkedLines`). It fails only where a line cannot be encoded or where a unit has counted
another number of instructions than its file has.
-/

namespace RegisterMachine

/-- The instructions of all files in link order, each with the position of its file. -/
def linkedLines (files : List SourceFile) : List (Nat × CodeLine) :=
  files.zipIdx.flatMap fun (f, i) => f.codeLines.map (i, ·)

theorem length_linkedLines (files : List SourceFile) :
    (linkedLines files).length = (files.flatMap (·.codeLines)).length := by
  have hlengths : files.zipIdx.map (fun x => x.1.codeLines.length) =
      files.map fun f => f.codeLines.length := by
    change files.zipIdx.map ((fun f : SourceFile => f.codeLines.length) ∘ Prod.fst) = _
    rw [← List.map_map, List.zipIdx_map_fst]
  simp [linkedLines, List.length_flatMap, hlengths]

theorem mem_linkedLines_iff {files : List SourceFile} {line : Nat × CodeLine} :
    line ∈ linkedLines files ↔ ∃ f, files[line.1]? = some f ∧ line.2 ∈ f.codeLines := by
  constructor
  · intro h
    obtain ⟨⟨f, i⟩, hf, h⟩ := List.mem_flatMap.1 h
    obtain ⟨l, hl, rfl⟩ := List.mem_map.1 h
    exact ⟨f, List.mem_zipIdx_iff_getElem?.1 hf, hl⟩
  · rintro ⟨f, hf, hl⟩
    refine List.mem_flatMap.2 ⟨(f, line.1), List.mem_zipIdx_iff_getElem?.2 hf, ?_⟩
    exact List.mem_map.2 ⟨line.2, hl, rfl⟩

theorem linkedLines_append (A B : List SourceFile) :
    linkedLines (A ++ B) =
      linkedLines A ++ (linkedLines B).map fun line => (A.length + line.1, line.2) := by
  have hB : B.zipIdx A.length = B.zipIdx.map fun x => (x.1, A.length + x.2) :=
    List.zipIdx_eq_map_add
  simp only [linkedLines, List.zipIdx_append, Nat.zero_add, List.flatMap_append, hB,
    List.flatMap_map, List.map_flatMap, List.map_map, Function.comp_def]

variable {c : Collection} {files : List SourceFile}

namespace Encoding

variable {i : Nat} {u : CompilationUnit} {f : SourceFile} {l : CodeLine}

theorem encodeLine_of_encodeCodeLine {x : Instruction × SourceLocation}
    (h : encodeCodeLine c i u f l = .ok x) : encodeLine c i u l.number l.code = .ok x.1 := by
  unfold encodeCodeLine at h
  split at h <;> cases h
  assumption

theorem location_of_encodeCodeLine {x : Instruction × SourceLocation}
    (h : encodeCodeLine c i u f l = .ok x) : x.2 = ⟨u.path, f.origin l.number, l.code⟩ := by
  unfold encodeCodeLine at h
  split at h <;> cases h
  rfl

theorem encodeCodeLine_eq_ok_iff {x : Instruction × SourceLocation} :
    encodeCodeLine c i u f l = .ok x ↔
      encodeLine c i u l.number l.code = .ok x.1 ∧ x.2 = ⟨u.path, f.origin l.number, l.code⟩ := by
  constructor
  · intro h
    exact ⟨encodeLine_of_encodeCodeLine h, location_of_encodeCodeLine h⟩
  · rintro ⟨hline, hlocation⟩
    rw [encodeCodeLine, hline]
    exact congrArg Except.ok (Prod.ext rfl hlocation.symm)

theorem encodeCodeLine_eq_error_iff {e : CompileError} :
    encodeCodeLine c i u f l = .error e ↔
      ∃ cause, encodeLine c i u l.number l.code = .error cause ∧
        e = (CompileError.inFile { stage := .encode, cause } u.path).atLine
          (f.origin l.number) l.raw := by
  unfold encodeCodeLine
  cases encodeLine c i u l.number l.code <;> simp [eq_comm]

theorem stage_of_encodeCodeLine {e : CompileError} (h : encodeCodeLine c i u f l = .error e) :
    e.stage = .encode := by
  obtain ⟨cause, -, rfl⟩ := encodeCodeLine_eq_error_iff.1 h
  rfl

end Encoding

namespace Link

variable {i : Nat} {u : CompilationUnit} {f : SourceFile}

theorem forall₂_of_unitCode {code : List (Instruction × SourceLocation)}
    (h : unitCode c i u f = .ok code) :
    List.Forall₂ (fun l x => Encoding.encodeCodeLine c i u f l = .ok x) f.codeLines code := by
  obtain ⟨lines, hlines, h⟩ := bind_eq_ok_iff.1 h
  split at h
  · obtain rfl := pure_eq_ok_iff.1 h
    exact forall₂_of_mapM_eq_ok hlines
  · exact (throw_ne_ok h).elim

/-- Where both passes count the same, a file fails only at one of its lines. -/
theorem exists_mem_of_unitCode_eq_error {e : CompileError}
    (hcount : u.instructionCount = f.codeLines.length) (h : unitCode c i u f = .error e) :
    ∃ l ∈ f.codeLines, Encoding.encodeCodeLine c i u f l = .error e := by
  rcases bind_eq_error_iff.1 h with h | ⟨lines, hlines, h⟩
  · exact exists_mem_of_mapM_eq_error h
  · have hlength : lines.length = u.instructionCount := by
      rw [hcount]
      exact (forall₂_of_mapM_eq_ok hlines).length_eq.symm
    rw [if_pos hlength] at h
    cases h

/-- An instruction with its place is what a line of a file is encoded to. -/
def Encodes (c : Collection) (files : List SourceFile) (line : Nat × CodeLine)
    (x : Instruction × SourceLocation) : Prop :=
  ∃ f u, files[line.1]? = some f ∧ c.units[line.1]? = some u ∧
    Encoding.encodeCodeLine c line.1 u f line.2 = .ok x

theorem linkedLines_eq_of_length_eq {units : List CompilationUnit}
    (h : units.length = files.length) :
    linkedLines files = (units.zip files).zipIdx.flatMap fun x => x.1.2.codeLines.map (x.2, ·) := by
  have hfiles : files.zipIdx = (units.zip files).zipIdx.map fun x => (x.1.2, x.2) := by
    conv_lhs => rw [← List.map_snd_zip (Nat.le_of_eq h.symm), List.zipIdx_map]
    rfl
  rw [linkedLines, hfiles, List.flatMap_map]

/-- The linked code is the encoding of the lines, one by one. -/
theorem forall₂_of_code {code : List (Instruction × SourceLocation)}
    (hlength : c.units.length = files.length) (h : Link.code c files = .ok code) :
    List.Forall₂ (Encodes c files) (linkedLines files) code := by
  obtain ⟨parts, hparts, h⟩ := bind_eq_ok_iff.1 h
  obtain rfl := pure_eq_ok_iff.1 h
  have hall := (List.forall₂_and_left _ _).2 ⟨fun x hx => hx, forall₂_of_mapM_eq_ok hparts⟩
  rw [linkedLines_eq_of_length_eq hlength]
  refine List.rel_flatten (List.forall₂_map_left_iff.2 (hall.imp ?_))
  rintro ⟨⟨u, f⟩, i⟩ part ⟨hmem, hunit⟩
  obtain ⟨hu, hf⟩ := List.getElem?_zip_eq_some.1 (List.mem_zipIdx_iff_getElem?.1 hmem)
  refine List.forall₂_map_left_iff.2 ((forall₂_of_unitCode hunit).imp ?_)
  intro l x hl
  exact ⟨f, u, hf, hu, hl⟩

/-- Where both passes count the same, the second one fails only at a line. -/
theorem exists_mem_of_code_eq_error {e : CompileError}
    (hcount : List.Forall₂ (fun f u => u.instructionCount = f.codeLines.length) files c.units)
    (h : Link.code c files = .error e) :
    ∃ line ∈ linkedLines files, ∃ f u, files[line.1]? = some f ∧ c.units[line.1]? = some u ∧
      Encoding.encodeCodeLine c line.1 u f line.2 = .error e := by
  rcases bind_eq_error_iff.1 h with h | ⟨parts, -, h⟩
  · obtain ⟨⟨⟨u, f⟩, i⟩, hmem, hunit⟩ := exists_mem_of_mapM_eq_error h
    obtain ⟨hu, hf⟩ := List.getElem?_zip_eq_some.1 (List.mem_zipIdx_iff_getElem?.1 hmem)
    obtain ⟨l, hl, herror⟩ :=
      exists_mem_of_unitCode_eq_error (rel_of_getElem? hcount hf hu) hunit
    exact ⟨(i, l), mem_linkedLines_iff.2 ⟨f, hf, hl⟩, f, u, hf, hu, herror⟩
  · cases h

theorem stage_of_code {e : CompileError}
    (hcount : List.Forall₂ (fun f u => u.instructionCount = f.codeLines.length) files c.units)
    (h : Link.code c files = .error e) : e.stage = .encode := by
  obtain ⟨line, -, f, u, -, -, herror⟩ := exists_mem_of_code_eq_error hcount h
  exact Encoding.stage_of_encodeCodeLine herror

theorem Encodes.eq {line : Nat × CodeLine} {x y : Instruction × SourceLocation}
    (hx : Encodes c files line x) (hy : Encodes c files line y) : x = y := by
  obtain ⟨f, u, hf, hu, hx⟩ := hx
  obtain ⟨g, v, hg, hv, hy⟩ := hy
  obtain rfl := Option.some.inj (hf.symm.trans hg)
  obtain rfl := Option.some.inj (hu.symm.trans hv)
  exact Except.ok.inj (hx.symm.trans hy)

/-- Where both passes count the same, the linked code is any list that encodes the lines. -/
theorem code_eq_ok_iff {code : List (Instruction × SourceLocation)}
    (hcount : List.Forall₂ (fun f u => u.instructionCount = f.codeLines.length) files c.units) :
    Link.code c files = .ok code ↔
      List.Forall₂ (Encodes c files) (linkedLines files) code := by
  refine ⟨forall₂_of_code hcount.length_eq.symm, fun h => ?_⟩
  cases hcode : Link.code c files with
  | ok code' =>
    have hunique : Relator.RightUnique (Encodes c files) := fun _ _ _ hx hy => hx.eq hy
    have h' := forall₂_of_code hcount.length_eq.symm hcode
    rw [List.right_unique_forall₂' hunique h' h]
  | error e =>
    obtain ⟨line, hline, f, u, hf, hu, herror⟩ := exists_mem_of_code_eq_error hcount hcode
    obtain ⟨x, -, g, v, hg, hv, hx⟩ := exists_mem_of_forall₂ h.flip hline
    obtain rfl := Option.some.inj (hf.symm.trans hg)
    obtain rfl := Option.some.inj (hu.symm.trans hv)
    rw [herror] at hx
    cases hx

end Link

end RegisterMachine
