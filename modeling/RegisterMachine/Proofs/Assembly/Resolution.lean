import Mathlib.Data.List.Nodup
import RegisterMachine.Proofs.Assembly.Addresses

/-!
# Where names lead to

A table finds a name through an index of positions in the linked program, and the position of a
symbol in its own table comes back when the base is taken away again. `SymbolTable.IsIndexed` says
that the index is right, so looking a name up is a search through the declarations of a file. The
address that a jump or call is encoded to can then be read off the files alone: it is the one of the
declaration that `Declaration.IsFirst` singles out (`encodeLine_eq_ok_iff`).
-/

namespace RegisterMachine

namespace SymbolTable

/-- The names of a table in lower case, in the order of their declaration. -/
def keys (t : SymbolTable) : List Text :=
  t.symbols.map fun s => Text.foldCase s.name

/-- The index names every symbol by its position, and no name is declared twice. -/
structure IsIndexed (t : SymbolTable) : Prop where
  index : t.index = t.keys.zipIdx t.base
  nodup : t.keys.Nodup

variable {t t' : SymbolTable} {name : Text} {address : Nat}

theorem IsIndexed.declare? (h : t.IsIndexed) (ht : t.declare? name address = some t') :
    t'.IsIndexed := by
  obtain ⟨hfree, rfl⟩ := eq_of_declare? ht
  rw [h.index, lookup_zipIdx_eq_none_iff] at hfree
  constructor
  · simp [keys, h.index, List.zipIdx_append]
  · have hnodup := List.nodup_concat t.keys (Text.foldCase name)
    rw [List.concat_eq_append] at hnodup
    simpa [keys] using hnodup.2 ⟨hfree, h.nodup⟩

theorem IsIndexed.find?_eq_some_iff (h : t.IsIndexed) {s : Symbol} :
    t.find? name = some s ↔ s ∈ t.symbols ∧ Text.foldCase s.name = Text.foldCase name := by
  have hkey (j : Nat) : t.keys[j]? = some (Text.foldCase name) ↔
      ∃ s, t.symbols[j]? = some s ∧ Text.foldCase s.name = Text.foldCase name := by
    simp [keys, Option.map_eq_some_iff]
  rw [find?, Option.bind_eq_bind, Option.bind_eq_some_iff, h.index]
  constructor
  · rintro ⟨i, hi, hs⟩
    rw [lookup_zipIdx_eq_some_iff h.nodup, hkey] at hi
    obtain ⟨-, s', hs', hname⟩ := hi
    obtain rfl := Option.some.inj (hs'.symm.trans hs)
    exact ⟨List.mem_of_getElem? hs, hname⟩
  · rintro ⟨hs, hname⟩
    obtain ⟨j, hj⟩ := List.mem_iff_getElem?.1 hs
    refine ⟨t.base + j, ?_, by simpa using hj⟩
    rw [lookup_zipIdx_eq_some_iff h.nodup, Nat.add_sub_cancel_left, hkey]
    exact ⟨Nat.le_add_right _ _, s, hj, hname⟩

end SymbolTable

namespace CompilationUnit

/-- Both tables of a unit can be searched by name. -/
structure IsIndexed (u : CompilationUnit) : Prop where
  functions : u.functions.IsIndexed
  labels : u.labels.IsIndexed

variable {paths : List Text} {base : Offsets} {u u' : CompilationUnit} {number : Nat} {raw : Text}
variable {lines : List (Nat × Text)} {kind : SymbolKind} {name : Text} {s : Symbol}

theorem isIndexed_empty (path : Text) : (empty path base).IsIndexed :=
  ⟨⟨rfl, List.nodup_nil⟩, ⟨rfl, List.nodup_nil⟩⟩

theorem Takes.isIndexed (h : u.Takes paths number raw u') (hu : u.IsIndexed) : u'.IsIndexed := by
  cases h with
  | function _ _ ht => exact ⟨hu.functions.declare? ht, hu.labels⟩
  | label _ _ ht => exact ⟨hu.functions, hu.labels.declare? ht⟩
  | skip | importOf | plain | stringLoad => exact ⟨hu.functions, hu.labels⟩

theorem Reads.isIndexed (h : u.Reads paths lines u') (hu : u.IsIndexed) : u'.IsIndexed :=
  h.preserves Takes.isIndexed hu

theorem IsIndexed.find?_eq_some_iff (h : u.IsIndexed) :
    u.find? kind name = some s ↔
      s ∈ u.symbols kind ∧ Text.foldCase s.name = Text.foldCase name := by
  cases kind with
  | function => exact h.functions.find?_eq_some_iff
  | label => exact h.labels.find?_eq_some_iff
  | string => simp [find?, symbols]

end CompilationUnit

theorem mem_declarations_iff {files : List SourceFile} {kind : SymbolKind} {d : Declaration} :
    d ∈ declarations kind files ↔
      ∃ f, files[d.file]? = some f ∧ (d.line, d.name) ∈ declaredNames kind f.numberedLines := by
  constructor
  · intro h
    obtain ⟨⟨f, i⟩, hf, hd⟩ := List.mem_flatMap.1 h
    obtain ⟨⟨line, name⟩, hname, rfl⟩ := List.mem_map.1 hd
    exact ⟨f, List.mem_zipIdx_iff_getElem?.1 hf, hname⟩
  · rintro ⟨f, hf, hname⟩
    refine List.mem_flatMap.2 ⟨(f, d.file), List.mem_zipIdx_iff_getElem?.2 hf, ?_⟩
    exact List.mem_map.2 ⟨_, hname, rfl⟩

namespace Declaration

/-- The declared name reads as given, up to the case of ASCII letters. -/
def IsNamed (d : Declaration) (name : Text) : Prop :=
  Text.foldCase d.name = Text.foldCase name

instance (d : Declaration) (name : Text) : Decidable (d.IsNamed name) :=
  inferInstanceAs (Decidable (_ = _))

/-- The symbol that stands for a declaration in the linked program. -/
def symbol (files : List SourceFile) (d : Declaration) : Symbol :=
  ⟨d.name, UInt32.ofNat (d.address files)⟩

/-- A declaration of a name in the first of the files, in the given order, that declares it. -/
structure IsFirst (files : List SourceFile) (kind : SymbolKind) (order : List Nat) (name : Text)
    (d : Declaration) : Prop where
  mem : d ∈ declarations kind files
  isNamed : d.IsNamed name
  first : ∃ before after, order = before ++ d.file :: after ∧
    ∀ e ∈ declarations kind files, e.IsNamed name → e.file ∉ before

end Declaration

section Collections

variable {paths : List Text} {files : List SourceFile} {units : List CompilationUnit}
  {kind : SymbolKind} {name : Text} {s : Symbol} {i j : Nat}

theorem CompilationUnit.Collects.isIndexed {base : Offsets} (h : Collects paths base files units) :
    ∀ u ∈ units, u.IsIndexed := by
  induction h with
  | nil => simp
  | cons h _ ih =>
    refine List.forall_mem_cons.2 ⟨?_, ih⟩
    exact (reads_of_collect h).isIndexed (isIndexed_empty _)

/-- What a unit finds is what its file declares. -/
theorem CompilationUnit.Collects.find?_eq_some_iff (h : Collects paths {} files units) :
    units[j]?.bind (·.find? kind name) = some s ↔
      ∃ d ∈ declarations kind files, d.file = j ∧ d.IsNamed name ∧ s = d.symbol files := by
  have hlength := h.forall₂.length_eq
  constructor
  · intro hs
    obtain ⟨u, hu, hs⟩ := Option.bind_eq_some_iff.1 hs
    obtain ⟨hj, -⟩ := List.getElem?_eq_some_iff.1 hu
    have hf : files[j]? = some files[j] := List.getElem?_eq_getElem (hlength ▸ hj)
    obtain ⟨hmem, hname⟩ :=
      (h.isIndexed u (List.mem_of_getElem? hu)).find?_eq_some_iff.1 hs
    rw [h.symbols_eq hf hu] at hmem
    obtain ⟨⟨line, declared⟩, hd, rfl⟩ := List.mem_map.1 hmem
    exact ⟨⟨declared, j, line⟩, mem_declarations_iff.2 ⟨_, hf, hd⟩, rfl, hname, rfl⟩
  · rintro ⟨d, hd, rfl, hname, rfl⟩
    obtain ⟨f, hf, hd⟩ := mem_declarations_iff.1 hd
    obtain ⟨hj, -⟩ := List.getElem?_eq_some_iff.1 hf
    have hu : units[d.file]? = some units[d.file] := List.getElem?_eq_getElem (hlength ▸ hj)
    rw [hu, Option.bind_some,
      (h.isIndexed _ (List.mem_of_getElem? hu)).find?_eq_some_iff, h.symbols_eq hf hu]
    exact ⟨List.mem_map.2 ⟨_, hd, rfl⟩, hname⟩

theorem CompilationUnit.Collects.find?_eq_none_iff (h : Collects paths {} files units) :
    units[j]?.bind (·.find? kind name) = none ↔
      ∀ d ∈ declarations kind files, d.IsNamed name → d.file ≠ j := by
  rw [Option.eq_none_iff_forall_ne_some]
  constructor
  · intro hnone d hd hname hj
    exact hnone _ (h.find?_eq_some_iff.2 ⟨d, hd, hj, hname, rfl⟩)
  · intro hnone s hs
    obtain ⟨d, hd, hj, hname, -⟩ := h.find?_eq_some_iff.1 hs
    exact hnone d hd hname hj

theorem CompilationUnit.Collects.resolve?_eq_some_iff (h : Collects paths {} files units) :
    (Collection.ofUnits units).resolve? i kind name = some s ↔
      ∃ d : Declaration, d.IsFirst files kind ((ImportGraph.build units).visibleFrom i) name ∧
        s = d.symbol files := by
  unfold Collection.resolve? Collection.ofUnits
  rw [List.findSome?_eq_some_iff]
  constructor
  · rintro ⟨before, j, after, horder, hj, hbefore⟩
    obtain ⟨d, hd, rfl, hname, rfl⟩ := h.find?_eq_some_iff.1 hj
    refine ⟨d, ⟨hd, hname, before, after, horder, fun e he hename hmem => ?_⟩, rfl⟩
    exact h.find?_eq_none_iff.1 (hbefore e.file hmem) e he hename rfl
  · rintro ⟨d, ⟨hd, hname, before, after, horder, hfirst⟩, rfl⟩
    refine ⟨before, d.file, after, horder, ?_, fun j hj => ?_⟩
    · exact h.find?_eq_some_iff.2 ⟨d, hd, rfl, hname, rfl⟩
    · refine h.find?_eq_none_iff.2 fun e he hename hfile => ?_
      exact hfirst e he hename (hfile ▸ hj)

theorem CompilationUnit.Collects.resolve?_eq_none_iff (h : Collects paths {} files units) :
    (Collection.ofUnits units).resolve? i kind name = none ↔
      ∀ d ∈ declarations kind files, d.IsNamed name →
        d.file ∉ (ImportGraph.build units).visibleFrom i := by
  unfold Collection.resolve? Collection.ofUnits
  rw [List.findSome?_eq_none_iff]
  constructor
  · intro hnone d hd hname hmem
    exact h.find?_eq_none_iff.1 (hnone d.file hmem) d hd hname rfl
  · intro hnone j hj
    refine h.find?_eq_none_iff.2 fun d hd hname hfile => ?_
    exact hnone d hd hname (hfile ▸ hj)

end Collections

/-- The kind of name that stands behind an opcode: jumps lead to labels, calls to functions. -/
inductive Opcode.TakesName : Opcode → SymbolKind → Prop
  | jump {op : Opcode} (h : op ∈ [.jmp, .je, .jne, .jg, .jl]) : TakesName op .label
  | call : TakesName .call .function

section Lines

variable {c : Collection} {i number : Nat} {u : CompilationUnit} {code mnemonic name : Text}
  {op : Opcode} {kind : SymbolKind}

theorem Encoding.encodeLine_eq_map_resolve (htokens : tokens code = [mnemonic, name])
    (hop : Opcode.ofMnemonic? mnemonic = some op) (hname : op.TakesName kind) :
    encodeLine c i u number code = (resolve c i kind name).map fun o => ⟨op, [o]⟩ := by
  have hoperands : encodeOperands c i u number op [name] = (resolve c i kind name).map ([·]) := by
    cases hname with
    | jump h =>
      rw [← Opcode.shape_eq_label_iff] at h
      simp [encodeOperands, h]
    | call => rfl
  unfold encodeLine
  simp only [htokens, hop, hoperands]
  cases resolve c i kind name <;> rfl

theorem Encoding.exists_symbol_of_target {instr : Instruction} {a : UInt32}
    (h : encodeLine c i u number code = .ok instr) (ha : .target a ∈ instr.operands) :
    ∃ v ∈ c.units, ∃ kind, ∃ s ∈ v.symbols kind, s.address = a := by
  have hsymbol {name : Text} {ops : List Operand} {kind : SymbolKind}
      (h : (resolve c i kind name).map ([·]) = .ok ops) (ha : .target a ∈ ops) :
      ∃ v ∈ c.units, ∃ kind, ∃ s ∈ v.symbols kind, s.address = a := by
    obtain ⟨s, hs, rfl⟩ := eq_of_resolve h
    obtain ⟨v, hv, hmem⟩ := Collection.exists_mem_of_resolve? hs
    have haddress : a = s.address := by simpa using ha
    exact ⟨v, hv, kind, s, hmem, haddress.symm⟩
  unfold encodeLine at h
  split at h
  · cases h
  · split at h
    · cases h
    · obtain ⟨ops, hops, rfl⟩ := map_eq_ok_iff.1 h
      unfold encodeOperands at hops
      split at hops
      · cases hops
        cases ha
      · exact hsymbol hops ha
      · exact hsymbol hops ha
      · obtain ⟨_, _, _, _, -, -, -, -, rfl⟩ := eq_of_encodeStringLoad hops
        simp at ha
      · obtain ⟨dest, hdest, hops⟩ := bind_eq_ok_iff.1 hops
        obtain ⟨src, hsrc, hops⟩ := bind_eq_ok_iff.1 hops
        obtain ⟨_, -, hops⟩ := bind_eq_ok_iff.1 hops
        obtain rfl := pure_eq_ok_iff.1 hops
        rcases List.mem_pair.1 ha with rfl | rfl
        · exact (isSource_of_readOperand hdest).elim
        · exact (isSource_of_readOperand hsrc).elim
      · cases hops

end Lines

section Programs

variable {files : List SourceFile} {units : List CompilationUnit}

theorem CompilationUnit.Collects.encodeLine_eq_ok_iff {paths : List Text} {i number : Nat}
    {u : CompilationUnit} {code mnemonic name : Text} {op : Opcode} {kind : SymbolKind}
    (h : Collects paths {} files units) (htokens : Encoding.tokens code = [mnemonic, name])
    (hop : Opcode.ofMnemonic? mnemonic = some op) (hname : op.TakesName kind) {instr : Instruction} :
    Encoding.encodeLine (.ofUnits units) i u number code = .ok instr ↔
      ∃ d : Declaration, d.IsFirst files kind ((ImportGraph.build units).visibleFrom i) name ∧
        instr = ⟨op, [.target (UInt32.ofNat (d.address files))]⟩ := by
  rw [Encoding.encodeLine_eq_map_resolve htokens hop hname, map_eq_ok_iff]
  constructor
  · rintro ⟨o, ho, rfl⟩
    unfold Encoding.resolve at ho
    split at ho <;> cases ho
    rename_i hs
    obtain ⟨d, hd, rfl⟩ := h.resolve?_eq_some_iff.1 hs
    exact ⟨d, hd, rfl⟩
  · rintro ⟨d, hd, rfl⟩
    refine ⟨.target (UInt32.ofNat (d.address files)), ?_, rfl⟩
    rw [Encoding.resolve, h.resolve?_eq_some_iff.2 ⟨d, hd, rfl⟩]
    rfl

theorem CompilationUnit.Collects.encodeLine_eq_error_iff {paths : List Text} {i number : Nat}
    {u : CompilationUnit} {code mnemonic name : Text} {op : Opcode} {kind : SymbolKind}
    (h : Collects paths {} files units) (htokens : Encoding.tokens code = [mnemonic, name])
    (hop : Opcode.ofMnemonic? mnemonic = some op) (hname : op.TakesName kind)
    {cause : CompileError.Cause} :
    Encoding.encodeLine (.ofUnits units) i u number code = .error cause ↔
      cause = .unresolvedSymbol kind name ∧ ∀ d ∈ declarations kind files, d.IsNamed name →
        d.file ∉ (ImportGraph.build units).visibleFrom i := by
  rw [Encoding.encodeLine_eq_map_resolve htokens hop hname, ← h.resolve?_eq_none_iff,
    Encoding.resolve]
  cases (Collection.ofUnits units).resolve? i kind name with
  | none => simp [Except.map, eq_comm]
  | some s => simp [Except.map]

/-- Every address in the code of a linked program is the one of a symbol. -/
theorem isSome_symbolAt?_of_link {p : Program} (h : link files = .ok p) {instr : Instruction}
    (hi : instr ∈ p.instructions) {a : UInt32} (ha : .target a ∈ instr.operands) :
    (p.symbolAt? a).isSome := by
  obtain ⟨units, code, hunits, hcode, rfl, -⟩ := eq_program_of_link h
  have hcollects := CompilationUnit.collects_of_collectAll hunits
  obtain ⟨_, _, _, _, -, hline⟩ := hcollects.exists_encodeLine hcode hi
  obtain ⟨v, hv, kind, s, hs, rfl⟩ := Encoding.exists_symbol_of_target hline ha
  have hmem : s ∈ (Link.program units code).functions.toList ++
      (Link.program units code).labels.toList := by
    cases kind with
    | function => exact List.mem_append_left _ (by simpa [Link.program] using ⟨v, hv, hs⟩)
    | label => exact List.mem_append_right _ (by simpa [Link.program] using ⟨v, hv, hs⟩)
    | string => cases hs
  rw [Program.symbolAt?, Option.isSome_map, List.find?_isSome]
  exact ⟨s, hmem, by simp⟩

end Programs

/-- A jump goes to the label, and a call to the function, of its name in the first file that the
line can see and that declares one; it is an error if none does. In a compiled program every code
address has a name. -/
theorem encodeLine_of_takesName {files expanded : List SourceFile} {units : List CompilationUnit}
    (hexpanded : expandMacros files = .ok expanded)
    (hunits : CompilationUnit.collectAll expanded = .ok units) :
    (∀ {i number : Nat} {u : CompilationUnit} {code mnemonic name : Text} {op : Opcode}
      {kind : SymbolKind}, Encoding.tokens code = [mnemonic, name] →
      Opcode.ofMnemonic? mnemonic = some op → op.TakesName kind →
        (∀ instr, Encoding.encodeLine (.ofUnits units) i u number code = .ok instr ↔
          ∃ d : Declaration,
            d.IsFirst expanded kind ((ImportGraph.build units).visibleFrom i) name ∧
              instr = ⟨op, [.target (UInt32.ofNat (d.address expanded))]⟩) ∧
        ∀ cause, Encoding.encodeLine (.ofUnits units) i u number code = .error cause ↔
          cause = .unresolvedSymbol kind name ∧
            ∀ d ∈ declarations kind expanded, d.IsNamed name →
              d.file ∉ (ImportGraph.build units).visibleFrom i) ∧
    ∀ p, compile files = .ok p → ∀ instr ∈ p.instructions, ∀ a, .target a ∈ instr.operands →
      (p.symbolAt? a).isSome := by
  have hcollects := CompilationUnit.collects_of_collectAll hunits
  refine ⟨fun htokens hop hname => ⟨fun instr => ?_, fun cause => ?_⟩, ?_⟩
  · exact hcollects.encodeLine_eq_ok_iff htokens hop hname
  · exact hcollects.encodeLine_eq_error_iff htokens hop hname
  · intro p hp instr hi a ha
    have hlink : link expanded = .ok p := by
      rwa [compile, hexpanded] at hp
    exact isSome_symbolAt?_of_link hlink hi ha

/-- A call finds the function of an imported file, in any case; a jump to the same name finds
nothing, as there is no such label. -/
theorem encodeLine_of_takesName_import :
    ∃ files expanded units, expandMacros files = .ok expanded ∧
      CompilationUnit.collectAll expanded = .ok units ∧
      (∀ u number, Encoding.encodeLine (.ofUnits units) 0 u number "call F".toList =
        .ok ⟨.call, [.target 2]⟩) ∧
      (∀ u number, Encoding.encodeLine (.ofUnits units) 0 u number "jmp f".toList =
        .error (.unresolvedSymbol .label "f".toList)) ∧
      ∃ p, compile files = .ok p ∧ p.instructions[0]? = some ⟨.call, [.target 2]⟩ ∧
        ∀ i ∈ p.instructions, ∀ a, .target a ∈ i.operands → (p.symbolAt? a).isSome := by
  let main : SourceFile :=
    { path := "main.s".toList, text := "import lib.s\nhere:\ncall F\njmp Here".toList }
  let lib : SourceFile :=
    { path := "lib.s".toList, text := "function f:\nret".toList }
  let expanded : List SourceFile :=
    [{ main with text := main.text ++ ['\n'], origins := [1, 2, 3, 4] },
      { lib with text := lib.text ++ ['\n'], origins := [1, 2] }]
  let units : List CompilationUnit :=
    match CompilationUnit.collectAll expanded with
    | .ok units => units
    | .error _ => []
  let p : Program :=
    { instructions := #[⟨.call, [.target 2]⟩, ⟨.jmp, [.target 0]⟩, ⟨.ret, []⟩]
      functions := #[⟨"f".toList, 2⟩]
      labels := #[⟨"here".toList, 0⟩]
      locations :=
        #[⟨"main.s".toList, 3, "call F".toList⟩, ⟨"main.s".toList, 4, "jmp Here".toList⟩,
          ⟨"lib.s".toList, 2, "ret".toList⟩] }
  have hexpanded : expandMacros [main, lib] = .ok expanded := by decide +kernel
  have hunits : CompilationUnit.collectAll expanded = .ok units := by decide +kernel
  have hp : compile [main, lib] = .ok p := by decide +kernel
  have hvisible : (ImportGraph.build units).visibleFrom 0 = [0, 1] := by decide +kernel
  have hfunctions : declarations .function expanded = [⟨"f".toList, 1, 1⟩] := by decide +kernel
  have hlabels : declarations .label expanded = [⟨"here".toList, 0, 2⟩] := by decide +kernel
  obtain ⟨hlines, htargets⟩ := encodeLine_of_takesName hexpanded hunits
  refine ⟨[main, lib], expanded, units, hexpanded, hunits, fun u number => ?_, fun u number => ?_,
    p, hp, rfl, htargets p hp⟩
  · have htokens : Encoding.tokens "call F".toList = [Opcode.call.mnemonic, "F".toList] := by
      decide +kernel
    refine ((hlines htokens (Opcode.ofMnemonic?_mnemonic _) .call).1 _).2
      ⟨⟨"f".toList, 1, 1⟩, ?_, by decide +kernel⟩
    refine ⟨by decide +kernel, by decide, [0], [], hvisible, fun e he _ => ?_⟩
    rw [hfunctions, List.mem_singleton] at he
    rw [he]
    decide
  · have htokens : Encoding.tokens "jmp f".toList = [Opcode.jmp.mnemonic, "f".toList] := by
      decide +kernel
    refine ((hlines htokens (Opcode.ofMnemonic?_mnemonic _) (.jump (by decide))).2 _).2
      ⟨rfl, fun d hd hname => ?_⟩
    rw [hlabels, List.mem_singleton] at hd
    subst hd
    exact absurd hname (by decide)

end RegisterMachine
