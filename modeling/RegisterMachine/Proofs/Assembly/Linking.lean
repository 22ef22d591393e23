import RegisterMachine.Proofs.Assembly.WellFormed

/-!
# Linking does not fail

The first pass hands out addresses and indices before the second one has encoded anything. As both
find the same instructions in a file, every reference is in range when the program is put together
(`Link.inRange_of_encodeLine`), and the checks of the linker confirm what is already certain
(`stage_ne_link_of_link`). An error of a compilation is thus always one of the source.
-/

namespace RegisterMachine

/-- Addresses and indices are cut to 32 bits, which can only make them smaller. -/
theorem toNat_ofNat_le (n : Nat) : (UInt32.ofNat n).toNat ≤ n := by
  rw [UInt32.toNat_ofNat']
  exact Nat.mod_le _ _

section Operands

variable {p : Program} {o : Operand} {i : Instruction}

theorem Operand.IsSource.inRange (h : o.IsSource) : Link.inRange p o = true := by
  cases o with
  | target | string => exact h.elim
  | _ => rfl

theorem Instruction.WellFormed.inRange (h : i.WellFormed p) :
    ∀ o ∈ i.operands, Link.inRange p o = true := by
  intro o ho
  cases h with
  | plain => cases ho
  | jump _ ha =>
    obtain rfl := List.mem_singleton.1 ho
    exact decide_eq_true ha
  | loadString hd hi =>
    rcases List.mem_pair.1 ho with rfl | rfl
    · exact hd.isRegister.isSource.inRange
    · exact decide_eq_true hi
  | move hd hs =>
    rcases List.mem_pair.1 ho with rfl | rfl
    · exact hd.isSource.inRange
    · exact hs.inRange
  | access _ hd hs =>
    rcases List.mem_pair.1 ho with rfl | rfl
    · exact hd.isRegister.isSource.inRange
    · exact hs.isRegister.isSource.inRange
  | combine _ hd hs =>
    rcases List.mem_pair.1 ho with rfl | rfl
    · exact hd.isRegister.isSource.inRange
    · exact hs.inRange

end Operands

/-- What a unit refers to is in a program: its symbols by their addresses, its literals by their
indices. -/
structure CompilationUnit.FitsIn (u : CompilationUnit) (p : Program) : Prop where
  address_le {kind : SymbolKind} {s : Symbol} (h : s ∈ u.symbols kind) : s.address.toNat ≤ p.size
  index_lt {literal : Text} {index : Nat} (h : u.strings.index.lookup literal = some index) :
    index < p.strings.size

theorem CompilationUnit.mem_symbols_of_find? {u : CompilationUnit} {kind : SymbolKind} {name : Text}
    {s : Symbol} (h : u.find? kind name = some s) : s ∈ u.symbols kind := by
  cases kind with
  | function | label =>
    obtain ⟨position, -, hs⟩ := Option.bind_eq_some_iff.1 h
    exact List.mem_of_getElem? hs
  | string => cases h

theorem Collection.exists_mem_of_resolve? {c : Collection} {i : Nat} {kind : SymbolKind}
    {name : Text} {s : Symbol} (h : c.resolve? i kind name = some s) :
    ∃ u ∈ c.units, s ∈ u.symbols kind := by
  obtain ⟨j, -, hj⟩ := List.exists_of_findSome?_eq_some h
  obtain ⟨u, hu, hfind⟩ := Option.bind_eq_some_iff.1 hj
  exact ⟨u, List.mem_of_getElem? hu, u.mem_symbols_of_find? hfind⟩

namespace Link

variable {c : Collection} {p : Program} {i number : Nat} {u : CompilationUnit}

theorem inRange_of_encodeOperands {op : Opcode} {args : List Text} {ops : List Operand}
    (hc : ∀ v ∈ c.units, v.FitsIn p) (hu : u ∈ c.units)
    (h : Encoding.encodeOperands c i u number op args = .ok ops) :
    ∀ o ∈ ops, inRange p o = true := by
  have htarget {kind : SymbolKind} {symbol : Symbol} {name : Text}
      (h : c.resolve? i kind name = some symbol) :
      ∀ o ∈ [Operand.target symbol.address], inRange p o = true := by
    intro o ho
    obtain rfl := List.mem_singleton.1 ho
    obtain ⟨v, hv, hs⟩ := c.exists_mem_of_resolve? h
    exact decide_eq_true ((hc v hv).address_le hs)
  unfold Encoding.encodeOperands at h
  split at h <;> rename_i hop
  · cases h
    intro o ho
    cases ho
  · obtain ⟨symbol, hs, rfl⟩ := Encoding.eq_of_resolve h
    exact htarget hs
  · obtain ⟨symbol, hs, rfl⟩ := Encoding.eq_of_resolve h
    exact htarget hs
  · obtain ⟨_, _, _, index, hd, -, -, hi, rfl⟩ := Encoding.eq_of_encodeStringLoad h
    intro o ho
    rcases List.mem_pair.1 ho with rfl | rfl
    · exact hd.isRegister.isSource.inRange
    · have hlt := (hc u hu).index_lt hi
      exact decide_eq_true (Nat.lt_of_le_of_lt (toNat_ofNat_le index) hlt)
  · exact (Encoding.wellFormed_of_encodePair hop h).inRange
  · cases h

theorem inRange_of_encodeLine {code : Text} {instr : Instruction} (hc : ∀ v ∈ c.units, v.FitsIn p)
    (hu : u ∈ c.units) (h : Encoding.encodeLine c i u number code = .ok instr) :
    ∀ o ∈ instr.operands, inRange p o = true := by
  unfold Encoding.encodeLine at h
  split at h
  · cases h
  · split at h
    · cases h
    · obtain ⟨ops, hops, rfl⟩ := map_eq_ok_iff.1 h
      exact inRange_of_encodeOperands hc hu hops

end Link

theorem Link.size_program {units : List CompilationUnit}
    {code : List (Instruction × SourceLocation)} : (program units code).size = code.length := by
  simp [Program.size, program]

namespace CompilationUnit

variable {paths : List Text} {files : List SourceFile} {units : List CompilationUnit}
  {code : List (Instruction × SourceLocation)}

/-- A unit fits in the program that is linked from all units. -/
theorem Collects.fitsIn (h : Collects paths {} files units)
    (hcode : Link.code (.ofUnits units) files = .ok code) {u : CompilationUnit} (hu : u ∈ units) :
    u.FitsIn (Link.program units code) := by
  obtain ⟨f, -, hf⟩ := exists_mem_of_forall₂ h.forall₂ hu
  obtain ⟨haddress, hstring⟩ := h.offsets_le hu
  have hlength := (h.encodes hcode).length_eq
  rw [length_linkedLines] at hlength
  refine ⟨fun {kind s} hs => ?_, fun {literal index} hi => ?_⟩
  · rw [hf.symbols kind] at hs
    obtain ⟨⟨line, name⟩, -, rfl⟩ := List.mem_map.1 hs
    have hbefore : CodeLine.countBefore f.codeLines line ≤ u.instructionCount := by
      rw [hf.instructionCount]
      exact List.countP_le_length
    rw [Link.size_program]
    refine Nat.le_trans (toNat_ofNat_le _) ?_
    dsimp only at haddress ⊢
    omega
  · have hlt := hf.isIndexed_strings.lt_of_lookup hi
    have hsize : (Link.program units code).strings.size =
        (units.flatMap (·.strings.texts)).length := by
      simp [Link.program]
    rw [hf.base_strings] at hlt
    rw [hsize]
    dsimp only at hstring
    omega

end CompilationUnit

section Link

variable {files : List SourceFile} {units : List CompilationUnit}
  {code : List (Instruction × SourceLocation)}

/-- What is linked from collected units is well formed. -/
theorem wellFormed_program (hunits : CompilationUnit.collectAll files = .ok units)
    (hcode : Link.code (.ofUnits units) files = .ok code) :
    (Link.program units code).WellFormed := by
  have hcollects := CompilationUnit.collects_of_collectAll hunits
  have hfits : ∀ u ∈ units, u.FitsIn (Link.program units code) :=
    fun u hu => hcollects.fitsIn hcode hu
  constructor
  case locations => simp [Link.program, Program.size]
  case functions =>
    intro s hs
    obtain ⟨u, hu, hs⟩ : ∃ u ∈ units, s ∈ u.symbols .function := by
      simpa [Link.program, CompilationUnit.symbols] using hs
    exact (hfits u hu).address_le hs
  case labels =>
    intro s hs
    obtain ⟨u, hu, hs⟩ : ∃ u ∈ units, s ∈ u.symbols .label := by
      simpa [Link.program, CompilationUnit.symbols] using hs
    exact (hfits u hu).address_le hs
  case instructions =>
    intro instr hi
    obtain ⟨_, _, _, u, hu, hline⟩ := hcollects.exists_encodeLine hcode hi
    have hin := Link.inRange_of_encodeLine hfits hu hline
    exact Encoding.wellFormed_of_encodeLine hline hin

/-- The last check of the linker confirms what the passes have made. -/
theorem fault?_program (hunits : CompilationUnit.collectAll files = .ok units)
    (hcode : Link.code (.ofUnits units) files = .ok code) :
    Link.fault? (units.foldl (· + ·.instructionCount) 0) (Link.program units code) = none := by
  have hcollects := CompilationUnit.collects_of_collectAll hunits
  have hw := wellFormed_program hunits hcode
  have hlength := (hcollects.encodes hcode).length_eq
  refine Link.fault?_eq_none_iff.2 ⟨?_, fun i hi => (hw.instructions i hi).inRange⟩
  rw [Link.size_program, hcollects.foldl_instructionCount, ← hlength, length_linkedLines]
  omega

/-- Files link if both passes succeed and no two files that see one another share a name. -/
theorem link_eq_ok_iff {p : Program} :
    link files = .ok p ↔
      ∃ units code, CompilationUnit.collectAll files = .ok units ∧
        visibleDuplicate? units (.build units) = none ∧
        Link.code (.ofUnits units) files = .ok code ∧ p = Link.program units code := by
  constructor
  · intro h
    obtain ⟨units, hunits, h⟩ := bind_eq_ok_iff.1 h
    dsimp only at h
    split at h
    · obtain ⟨_, hthrow, -⟩ := bind_eq_ok_iff.1 h
      exact (throw_ne_ok hthrow).elim
    · rename_i hduplicate
      obtain ⟨code, hcode, h⟩ := bind_eq_ok_iff.1 h
      rw [fault?_program hunits hcode] at h
      refine ⟨units, code, hunits, ?_, hcode, (pure_eq_ok_iff.1 h).symm⟩
      exact Option.eq_none_iff_forall_ne_some.2 hduplicate
  · rintro ⟨units, code, hunits, hduplicate, hcode, rfl⟩
    refine bind_eq_ok_iff.2 ⟨units, hunits, ?_⟩
    have hnone : visibleDuplicate? (Collection.ofUnits units).units
        (Collection.ofUnits units).graph = none := hduplicate
    simp only [hnone]
    refine bind_eq_ok_iff.2 ⟨code, hcode, ?_⟩
    rw [fault?_program hunits hcode]
    rfl

end Link

namespace MacroTable

variable {table : MacroTable} {f : SourceFile} {e : CompileError}

theorem stage_of_segmentsOf (h : segmentsOf f = .error e) : e.stage = .expand := by
  unfold segmentsOf at h
  split at h <;> cases h
  rfl

theorem stage_of_insert {d : MacroDef} (h : table.insert d = .error e) : e.stage = .expand := by
  unfold insert at h
  split at h <;> cases h
  rfl

theorem stage_of_ofFiles {files : List SourceFile} (h : ofFiles files = .error e) :
    e.stage = .expand := by
  obtain ⟨table, f, -, h⟩ := exists_mem_of_foldlM_eq_error h
  rcases bind_eq_error_iff.1 h with h | ⟨segs, -, h⟩
  · exact stage_of_segmentsOf h
  · obtain ⟨table, d, -, h⟩ := exists_mem_of_foldlM_eq_error h
    exact stage_of_insert h

theorem stage_of_expandLines {path : Text} {lines : List (Nat × Text)}
    (h : table.expandLines path lines = .error e) : e.stage = .expand := by
  rcases bind_eq_error_iff.1 h with h | ⟨parts, -, h⟩
  · obtain ⟨⟨n, line⟩, -, h⟩ := exists_mem_of_mapM_eq_error h
    dsimp only at h
    split at h
    · cases h
    · split at h <;> cases h
      rfl
  · cases h

theorem stage_of_expandFile (h : table.expandFile f = .error e) : e.stage = .expand := by
  rcases bind_eq_error_iff.1 h with h | ⟨segs, -, h⟩
  · exact stage_of_segmentsOf h
  rcases bind_eq_error_iff.1 h with h | ⟨lines, -, h⟩
  · exact stage_of_expandLines h
  · cases h

end MacroTable

section Stages

variable {files : List SourceFile} {e : CompileError}

theorem stage_of_expandMacros (h : expandMacros files = .error e) : e.stage = .expand := by
  rcases bind_eq_error_iff.1 h with h | ⟨table, -, h⟩
  · exact MacroTable.stage_of_ofFiles h
  · obtain ⟨f, -, h⟩ := exists_mem_of_mapM_eq_error h
    exact MacroTable.stage_of_expandFile h

theorem stage_of_visibleDuplicate? {units : List CompilationUnit} {g : ImportGraph}
    (h : visibleDuplicate? units g = some e) : e.stage = .collect := by
  obtain ⟨⟨later, i⟩, -, h⟩ := List.exists_of_findSome?_eq_some h
  obtain ⟨⟨earlier, j⟩, -, h⟩ := List.exists_of_findSome?_eq_some h
  dsimp only at h
  split at h
  · obtain ⟨kind, -, h⟩ := List.exists_of_findSome?_eq_some h
    obtain ⟨name, -, rfl⟩ := Option.map_eq_some_iff.1 h
    rfl
  · cases h

/-- Linking fails in one of the two passes or between them. -/
theorem stage_or_code_of_link_eq_error (h : link files = .error e) :
    e.stage = .collect ∨
      ∃ units, CompilationUnit.collectAll files = .ok units ∧
        Link.code (.ofUnits units) files = .error e := by
  rcases bind_eq_error_iff.1 h with h | ⟨units, hunits, h⟩
  · exact .inl (CompilationUnit.stage_of_collectAll h)
  dsimp only at h
  split at h
  · rename_i hduplicate
    rcases bind_eq_error_iff.1 h with h | ⟨_, hthrow, -⟩
    · cases h
      exact .inl (stage_of_visibleDuplicate? hduplicate)
    · exact (throw_ne_ok hthrow).elim
  rcases bind_eq_error_iff.1 h with h | ⟨code, hcode, h⟩
  · exact .inr ⟨units, hunits, h⟩
  · rw [fault?_program hunits hcode] at h
    cases h

/-- The checks of the linker never fire. -/
theorem stage_ne_link_of_link (h : link files = .error e) : e.stage ≠ .link := by
  rcases stage_or_code_of_link_eq_error h with hstage | ⟨units, hunits, hcode⟩
  · rw [hstage]
    decide
  · have hcollects := CompilationUnit.collects_of_collectAll hunits
    have hcount := hcollects.forall₂.imp fun _ _ hu => hu.instructionCount
    rw [Link.stage_of_code hcount hcode]
    decide

end Stages

/-- A compilation makes a well-formed program or finds an error in the source: its two passes never
disagree. -/
theorem wellFormed_or_stage_ne_link (files : List SourceFile) :
    match compile files with
    | .ok p => p.WellFormed
    | .error e => e.stage ≠ .link := by
  cases h : compile files with
  | ok p =>
    obtain ⟨expanded, -, hlink⟩ := bind_eq_ok_iff.1 h
    obtain ⟨units, code, hunits, hcode, rfl, -⟩ := eq_program_of_link hlink
    exact wellFormed_program hunits hcode
  | error e =>
    rcases bind_eq_error_iff.1 h with h | ⟨expanded, -, hlink⟩
    · change e.stage ≠ .link
      rw [stage_of_expandMacros h]
      decide
    · exact stage_ne_link_of_link hlink

end RegisterMachine
