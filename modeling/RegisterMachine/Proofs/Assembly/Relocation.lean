import Mathlib.Algebra.Group.Nat.Defs
import RegisterMachine.Proofs.Assembly.Comparison
import RegisterMachine.Proofs.Assembly.ImportGraph

/-!
# Linking moves the later files

Files that are linked behind others come out as they do alone, moved behind the instructions and
strings of the others (`compile_append`). The first pass collects them at other totals, which moves
the bases of every table and the addresses (`CompilationUnit.Takes.move`); imports stay among the
files themselves, so names resolve to the same declarations (`resolve?_move_right`), and the
second pass encodes every line with its references moved.
-/

namespace RegisterMachine

/-- The symbol, with `code` instructions put in front of the program. -/
def Symbol.move (code : Nat) (s : Symbol) : Symbol :=
  { s with address := s.address + UInt32.ofNat code }

/-- The operand, with `code` instructions and `strings` literals put in front of the program. -/
def Operand.move (code strings : Nat) : Operand → Operand
  | .target address => .target (address + UInt32.ofNat code)
  | .string index => .string (index + UInt32.ofNat strings)
  | o => o

def Instruction.move (code strings : Nat) (i : Instruction) : Instruction :=
  { i with operands := i.operands.map (·.move code strings) }

namespace Program

/-- The first program, then the second one moved behind it. -/
def append (p q : Program) : Program where
  instructions := p.instructions ++ q.instructions.map (·.move p.size p.strings.size)
  functions := p.functions ++ q.functions.map (·.move p.size)
  labels := p.labels ++ q.labels.map (·.move p.size)
  strings := p.strings ++ q.strings
  locations := p.locations ++ q.locations

/-- Putting `code` instructions and `strings` literals in front of the program wraps no reference
around: each is larger by just that number. -/
structure MovesExactly (q : Program) (code strings : Nat) : Prop where
  target : ∀ i ∈ q.instructions, ∀ address, .target address ∈ i.operands →
    (address + UInt32.ofNat code).toNat = address.toNat + code
  string : ∀ i ∈ q.instructions, ∀ index, .string index ∈ i.operands →
    (index + UInt32.ofNat strings).toNat = index.toNat + strings
  functions : ∀ s ∈ q.functions, (s.move code).address.toNat = s.address.toNat + code
  labels : ∀ s ∈ q.labels, (s.move code).address.toNat = s.address.toNat + code

end Program

theorem toNat_add_ofNat_of_lt {a : UInt32} {n : Nat} (h : a.toNat + n < 2 ^ 32) :
    (a + UInt32.ofNat n).toNat = a.toNat + n := by
  rw [UInt32.toNat_add, UInt32.toNat_ofNat']
  omega

theorem Program.WellFormed.movesExactly {q : Program} (h : q.WellFormed) {code strings : Nat}
    (hcode : code + q.size < 2 ^ 32) (hstrings : strings + q.strings.size < 2 ^ 32) :
    q.MovesExactly code strings where
  target i hi address ha := by
    have hin := (h.instructions i hi).inRange _ ha
    have hle : address.toNat ≤ q.size := by simpa [Link.inRange] using hin
    exact toNat_add_ofNat_of_lt (by omega)
  string i hi index hindex := by
    have hin := (h.instructions i hi).inRange _ hindex
    have hlt : index.toNat < q.strings.size := by simpa [Link.inRange] using hin
    exact toNat_add_ofNat_of_lt (by omega)
  functions s hs := by
    have hle := h.functions s hs
    exact toNat_add_ofNat_of_lt (by omega)
  labels s hs := by
    have hle := h.labels s hs
    exact toNat_add_ofNat_of_lt (by omega)

theorem lookup_map_add {α : Type} [BEq α] {n : Nat} {k : α} (l : List (α × Nat)) :
    (l.map fun x => (x.1, x.2 + n)).lookup k = (l.lookup k).map (· + n) := by
  induction l with
  | nil => rfl
  | cons x l ih =>
    rw [List.map_cons, List.lookup_cons, List.lookup_cons, ih]
    split <;> rfl

/-- The table, with `entries` symbols and `code` instructions in front of the file. -/
def SymbolTable.move (entries code : Nat) (t : SymbolTable) : SymbolTable where
  base := t.base + entries
  symbols := t.symbols.map (·.move code)
  index := t.index.map fun x => (x.1, x.2 + entries)

/-- The table, with `entries` literals in front of the file. -/
def StringTable.move (entries : Nat) (t : StringTable) : StringTable where
  base := t.base + entries
  texts := t.texts
  index := t.index.map fun x => (x.1, x.2 + entries)

section Tables

variable {entries code address : Nat} {name text : Text}

theorem SymbolTable.declare?_move {t : SymbolTable} :
    (t.move entries code).declare? name (address + code) =
      (t.declare? name address).map (·.move entries code) := by
  have hlookup : (t.move entries code).index.lookup (Text.foldCase name) =
      (t.index.lookup (Text.foldCase name)).map (· + entries) := lookup_map_add _
  unfold declare?
  simp only [hlookup]
  cases t.index.lookup (Text.foldCase name) with
  | some _ => rfl
  | none =>
    have hposition : t.base + entries + t.symbols.length = t.base + t.symbols.length + entries := by
      omega
    simp [move, Symbol.move, hposition]

theorem SymbolTable.find?_move {t : SymbolTable} :
    (t.move entries code).find? name = (t.find? name).map (·.move code) := by
  have hlookup : (t.move entries code).index.lookup (Text.foldCase name) =
      (t.index.lookup (Text.foldCase name)).map (· + entries) := lookup_map_add _
  unfold find?
  rw [hlookup]
  cases t.index.lookup (Text.foldCase name) with
  | none => rfl
  | some position => simp [move, Nat.add_sub_add_right]

theorem StringTable.intern_move {t : StringTable} :
    (t.move entries).intern text = (t.intern text).move entries := by
  have hlookup : (t.move entries).index.lookup text =
      (t.index.lookup text).map (· + entries) := lookup_map_add _
  unfold intern
  rw [hlookup]
  cases t.index.lookup text with
  | some _ => rfl
  | none =>
    have hposition : t.base + entries + t.texts.length = t.base + t.texts.length + entries := by
      omega
    simp [move, hposition]

end Tables

/-- Totals that continue others. -/
def Offsets.add (o start : Offsets) : Offsets where
  instruction := o.instruction + start.instruction
  function := o.function + start.function
  label := o.label + start.label
  string := o.string + start.string

theorem Offsets.zero_add (start : Offsets) : ({} : Offsets).add start = start := by
  simp [add]

namespace CompilationUnit

/-- The unit as it is collected behind files with the given totals. -/
def move (start : Offsets) (u : CompilationUnit) : CompilationUnit :=
  { u with
    base := u.base.add start
    functions := u.functions.move start.function start.instruction
    labels := u.labels.move start.label start.instruction
    strings := u.strings.move start.string }

variable {paths paths' : List Text} {u u' : CompilationUnit} {number : Nat} {raw name : Text}
variable {lines : List (Nat × Text)} {start base : Offsets} {f : SourceFile} {kind : SymbolKind}

theorem address_move : (u.move start).address = u.address + start.instruction := by
  simp only [address, move, Offsets.add]
  omega

theorem symbols_move :
    (u.move start).symbols kind = (u.symbols kind).map (·.move start.instruction) := by
  cases kind <;> rfl

theorem find?_move :
    (u.move start).find? kind name = (u.find? kind name).map (·.move start.instruction) := by
  cases kind with
  | function | label => exact SymbolTable.find?_move
  | string => rfl

theorem offsetsAfter_move : (u.move start).offsetsAfter = u.offsetsAfter.add start := by
  simp only [offsetsAfter, move, Offsets.add, SymbolTable.move, StringTable.move, List.length_map,
    Offsets.mk.injEq]
  omega

theorem sharedName?_move {later earlier : CompilationUnit}
    (h : sharedName? kind later earlier = none) :
    sharedName? kind (later.move start) (earlier.move start) = none := by
  rw [sharedName?_eq_none_iff] at h ⊢
  intro s hs
  rw [symbols_move] at hs
  obtain ⟨t, ht, rfl⟩ := List.mem_map.1 hs
  rw [find?_move, Option.map_eq_none_iff]
  exact h t ht

/-- A line does the same to a unit behind other files. -/
theorem Takes.move (h : u.Takes paths number raw u') :
    (u.move start).Takes paths number raw (u'.move start) := by
  cases h with
  | skip h => exact .skip h
  | importOf h hne hpath => exact .importOf h hne hpath
  | function h hname ht =>
    refine .function h hname ?_
    rw [address_move]
    exact SymbolTable.declare?_move.trans (by rw [ht]; rfl)
  | label h hname ht =>
    refine .label h hname ?_
    rw [address_move]
    exact SymbolTable.declare?_move.trans (by rw [ht]; rfl)
  | plain h hload => exact .plain h hload
  | stringLoad h hload hquoted =>
    have htakes : (u.move start).Takes paths number raw _ := .stringLoad h hload hquoted
    rwa [show (u.move start).strings = u.strings.move start.string from rfl,
      StringTable.intern_move] at htakes

theorem Takes.mono (h : u.Takes paths number raw u') (hpaths : paths ⊆ paths') :
    u.Takes paths' number raw u' := by
  cases h with
  | skip h => exact .skip h
  | importOf h hne hpath => exact .importOf h hne (hpaths hpath)
  | function h hname ht => exact .function h hname ht
  | label h hname ht => exact .label h hname ht
  | plain h hload => exact .plain h hload
  | stringLoad h hload hquoted => exact .stringLoad h hload hquoted

theorem Reads.move (h : u.Reads paths lines u') :
    (u.move start).Reads paths lines (u'.move start) := by
  induction h with
  | nil => exact .nil _
  | cons h _ ih => exact .cons h.move ih

theorem Reads.mono (h : u.Reads paths lines u') (hpaths : paths ⊆ paths') :
    u.Reads paths' lines u' := by
  induction h with
  | nil => exact .nil _
  | cons h _ ih => exact .cons (h.mono hpaths) ih

variable {A B files : List SourceFile} {units us vs : List CompilationUnit}

theorem Collects.move (h : Collects paths base files units) :
    Collects paths (base.add start) files (units.map (·.move start)) := by
  induction h with
  | nil => exact .nil _
  | @cons base f _ _ _ h _ ih =>
    refine .cons ?_ ?_
    · exact collect_of_reads (reads_of_collect h).move
    · rwa [offsetsAfter_move]

theorem Collects.mono (h : Collects paths base files units) (hpaths : paths ⊆ paths') :
    Collects paths' base files units := by
  induction h with
  | nil => exact .nil _
  | cons h _ ih => exact .cons (collect_of_reads ((reads_of_collect h).mono hpaths)) ih

/-- The totals at the end of units that start at the given totals. -/
def totals (base : Offsets) (units : List CompilationUnit) : Offsets :=
  units.foldl (fun _ u => u.offsetsAfter) base

theorem Collects.append (hA : Collects paths base A us)
    (hB : Collects paths (totals base us) B vs) : Collects paths base (A ++ B) (us ++ vs) := by
  induction hA with
  | nil => exact hB
  | cons h _ ih => exact .cons h (ih hB)

theorem Collects.totals_eq (h : Collects paths base files units) :
    (totals base units).instruction = base.instruction + (files.flatMap (·.codeLines)).length ∧
      (totals base units).string = base.string + (units.flatMap (·.strings.texts)).length := by
  induction h with
  | nil => exact ⟨rfl, rfl⟩
  | @cons base f fs u us h _ ih =>
    have hu := isCollected_of_collect h
    obtain ⟨hinstruction, hstring⟩ := ih
    simp only [totals, List.foldl_cons, List.flatMap_cons, List.length_append]
      at hinstruction hstring ⊢
    have hbase : u.offsetsAfter.instruction = base.instruction + f.codeLines.length ∧
        u.offsetsAfter.string = base.string + u.strings.texts.length := by
      rw [offsetsAfter, hu.base, hu.instructionCount]
      exact ⟨rfl, rfl⟩
    omega

end CompilationUnit

section Names

variable {start : Offsets} {us vs : List CompilationUnit} {i : Nat} {kind : SymbolKind}
  {name : Text}

/-- Neither list of units imports anything from the other. -/
structure AreSeparate (us vs : List CompilationUnit) : Prop where
  left : ∀ u ∈ us, ∀ path ∈ u.imports, path ∉ vs.map (·.path)
  right : ∀ v ∈ vs, ∀ path ∈ v.imports, path ∈ vs.map (·.path)

theorem map_path_move : (vs.map (·.move start)).map (·.path) = vs.map (·.path) := by
  rw [List.map_map]
  rfl

theorem visibleFrom_move_left (h : AreSeparate us vs) (hi : i < us.length) :
    (ImportGraph.build (us ++ vs.map (·.move start))).visibleFrom i =
      (ImportGraph.build us).visibleFrom i := by
  apply ImportGraph.visibleFrom_append_left _ hi
  rw [map_path_move]
  exact h.left

theorem visibleFrom_move_right (h : AreSeparate us vs) :
    (ImportGraph.build (us ++ vs.map (·.move start))).visibleFrom (us.length + i) =
      ((ImportGraph.build vs).visibleFrom i).map (us.length + ·) := by
  have hbuild : ImportGraph.build (vs.map (·.move start)) = ImportGraph.build vs :=
    ImportGraph.build_map (fun _ => rfl) fun _ => rfl
  rw [ImportGraph.visibleFrom_append_right, hbuild]
  intro v hv path hpath
  obtain ⟨w, hw, rfl⟩ := List.mem_map.1 hv
  rw [map_path_move]
  exact h.right w hw path hpath

/-- The first files find what they find alone. -/
theorem resolve?_move_left (h : AreSeparate us vs) (hi : i < us.length) :
    (Collection.ofUnits (us ++ vs.map (·.move start))).resolve? i kind name =
      (Collection.ofUnits us).resolve? i kind name := by
  unfold Collection.resolve? Collection.ofUnits
  dsimp only
  rw [visibleFrom_move_left h hi, ← List.head?_filterMap, ← List.head?_filterMap]
  congr 1
  refine List.filterMap_congr fun j hj => ?_
  rw [List.getElem?_append_left (ImportGraph.lt_length_of_mem_visibleFrom hj)]

/-- The later files find what they find alone, at the address where it is now. -/
theorem resolve?_move_right (h : AreSeparate us vs) :
    (Collection.ofUnits (us ++ vs.map (·.move start))).resolve? (us.length + i) kind name =
      ((Collection.ofUnits vs).resolve? i kind name).map (·.move start.instruction) := by
  unfold Collection.resolve? Collection.ofUnits
  dsimp only
  rw [visibleFrom_move_right h, List.findSome?_map, List.map_findSome?]
  congr 1
  funext j
  simp only [Function.comp_apply]
  rw [List.getElem?_append_right (Nat.le_add_right _ _), Nat.add_sub_cancel_left, List.getElem?_map]
  cases vs[j]? with
  | none => rfl
  | some v => exact CompilationUnit.find?_move

theorem visibleDuplicate?_move (h : AreSeparate us vs)
    (hus : visibleDuplicate? us (.build us) = none)
    (hvs : visibleDuplicate? vs (.build vs) = none) :
    visibleDuplicate? (us ++ vs.map (·.move start))
      (.build (us ++ vs.map (·.move start))) = none := by
  rw [visibleDuplicate?_eq_none_iff] at hus hvs ⊢
  intro i later hlater j earlier hearlier hlt hreaches kind
  simp only [ImportGraph.reaches, decide_eq_true_eq] at hus hvs hreaches
  by_cases hi : i < us.length
  · rw [List.getElem?_append_left hi] at hlater
    rw [List.getElem?_append_left (by omega)] at hearlier
    rw [visibleFrom_move_left h hi, visibleFrom_move_left h (by omega)] at hreaches
    exact hus i later hlater j earlier hearlier hlt hreaches kind
  obtain ⟨i, rfl⟩ := Nat.exists_eq_add_of_le (Nat.le_of_not_lt hi)
  rw [List.getElem?_append_right (by omega), Nat.add_sub_cancel_left, List.getElem?_map] at hlater
  obtain ⟨v, hv, rfl⟩ := Option.map_eq_some_iff.1 hlater
  rw [visibleFrom_move_right h] at hreaches
  by_cases hj : j < us.length
  · -- one file is in each list
    exfalso
    rcases hreaches with hreaches | hreaches
    · obtain ⟨k, -, hk⟩ := List.mem_map.1 hreaches
      omega
    · rw [visibleFrom_move_left h hj] at hreaches
      have := ImportGraph.lt_length_of_mem_visibleFrom hreaches
      omega
  obtain ⟨j, rfl⟩ := Nat.exists_eq_add_of_le (Nat.le_of_not_lt hj)
  rw [List.getElem?_append_right (by omega), Nat.add_sub_cancel_left, List.getElem?_map] at hearlier
  obtain ⟨w, hw, rfl⟩ := Option.map_eq_some_iff.1 hearlier
  have hinjective : Function.Injective (us.length + ·) := fun _ _ h => Nat.add_left_cancel h
  rw [visibleFrom_move_right h, List.mem_map_of_injective hinjective,
    List.mem_map_of_injective hinjective] at hreaches
  exact CompilationUnit.sharedName?_move (hvs i v hv j w hw (by omega) hreaches kind)

end Names

section Code

variable {start : Offsets} {us vs : List CompilationUnit} {A B : List SourceFile}
  {line : Nat × CodeLine} {x : Instruction × SourceLocation}

theorem Operand.move_of_isSource {code strings : Nat} {o : Operand} (h : o.IsSource) :
    o.move code strings = o := by
  cases o with
  | target | string => exact h.elim
  | _ => rfl

theorem Link.Encodes.append_left (h : AreSeparate us vs) (hlength : us.length = A.length)
    (hx : Encodes (.ofUnits us) A line x) :
    Encodes (.ofUnits (us ++ vs.map (·.move start))) (A ++ B) line x := by
  obtain ⟨f, u, hf, hu, hx⟩ := hx
  obtain ⟨hlt, -⟩ := List.getElem?_eq_some_iff.1 hf
  obtain ⟨hline, hlocation⟩ := Encoding.encodeCodeLine_eq_ok_iff.1 hx
  refine ⟨f, u, ?_, ?_, ?_⟩
  · rw [List.getElem?_append_left hlt, hf]
  · exact (List.getElem?_append_left (hlength ▸ hlt)).trans hu
  · refine Encoding.encodeCodeLine_eq_ok_iff.2 ⟨?_, hlocation⟩
    refine Encoding.encodeLine_congr (fun kind name s hs => ?_) rfl rfl hline
    rwa [resolve?_move_left h (hlength ▸ hlt)]

theorem Link.Encodes.append_right (h : AreSeparate us vs) (hlength : us.length = A.length)
    (hx : Encodes (.ofUnits vs) B line x) :
    Encodes (.ofUnits (us ++ vs.map (·.move start))) (A ++ B) (A.length + line.1, line.2)
      (x.1.move start.instruction start.string, x.2) := by
  obtain ⟨f, v, hf, hv, hx⟩ := hx
  obtain ⟨hline, hlocation⟩ := Encoding.encodeCodeLine_eq_ok_iff.1 hx
  refine ⟨f, v.move start, ?_, ?_, ?_⟩
  · rw [List.getElem?_append_right (Nat.le_add_right _ _), Nat.add_sub_cancel_left, hf]
  · have hv' : (us ++ vs.map (·.move start))[A.length + line.1]? = some (v.move start) := by
      rw [← hlength, List.getElem?_append_right (Nat.le_add_right _ _), Nat.add_sub_cancel_left,
        List.getElem?_map]
      exact congrArg (Option.map (·.move start)) hv
    exact hv'
  · have hmoved : Encoding.Corresponds (·.move start.instruction start.string) (.ofUnits vs)
        (.ofUnits (us ++ vs.map (·.move start))) line.1 (A.length + line.1) v (v.move start)
        line.2.number line.2.number := by
      constructor
      · intro o ho
        exact Operand.move_of_isSource ho
      · intro kind name s hs
        refine ⟨s.move start.instruction, ?_, rfl⟩
        rw [← hlength, resolve?_move_right h, hs]
        rfl
      · rfl
      · intro literal index hindex
        refine ⟨index + start.string, ?_, ?_⟩
        · exact (lookup_map_add _).trans (by rw [hindex]; rfl)
        · rw [Operand.move, UInt32.ofNat_add]
    exact Encoding.encodeCodeLine_eq_ok_iff.2 ⟨hmoved.encodeLine hline, hlocation⟩

end Code

theorem Link.program_append {start : Offsets} {us vs : List CompilationUnit}
    {code code' : List (Instruction × SourceLocation)} (hcode : start.instruction = code.length)
    (hstring : start.string = (us.flatMap (·.strings.texts)).length) :
    program (us ++ vs.map (·.move start))
        (code ++ code'.map fun x => (x.1.move start.instruction start.string, x.2)) =
      (program us code).append (program vs code') := by
  have hsize : (program us code).size = start.instruction := by rw [size_program, hcode]
  have hstrings : (program us code).strings.size = start.string := by simp [program, hstring]
  unfold Program.append
  rw [hsize, hstrings]
  simp [program, CompilationUnit.move, SymbolTable.move, StringTable.move, List.flatMap_map,
    List.map_flatMap, Function.comp_def]

theorem link_append {A B : List SourceFile} {p q : Program}
    (hpaths : ∀ f ∈ A, ∀ g ∈ B, f.path ≠ g.path) (hp : link A = .ok p) (hq : link B = .ok q) :
    link (A ++ B) = .ok (p.append q) := by
  obtain ⟨us, code, hus, hduplicate, hcode, rfl⟩ := link_eq_ok_iff.1 hp
  obtain ⟨vs, code', hvs, hduplicate', hcode', rfl⟩ := link_eq_ok_iff.1 hq
  rw [CompilationUnit.collectAll_eq_ok_iff] at hus hvs
  have hseparate : AreSeparate us vs := by
    constructor
    · intro u hu path hpath hmem
      rw [hvs.map_path] at hmem
      obtain ⟨f, hf, rfl⟩ := List.mem_map.1 (hus.forall_mem_imports u hu path hpath)
      obtain ⟨g, hg, heq⟩ := List.mem_map.1 hmem
      exact hpaths f hf g hg heq.symm
    · intro v hv path hpath
      rw [hvs.map_path]
      exact hvs.forall_mem_imports v hv path hpath
  obtain ⟨hinstruction, hstring⟩ := hus.totals_eq
  -- the totals stay a variable, as unfolding them would collect the first files again
  obtain ⟨start, hstart⟩ : ∃ start, start = CompilationUnit.totals {} us := ⟨_, rfl⟩
  rw [← hstart] at hinstruction hstring
  have hcollects : CompilationUnit.Collects ((A ++ B).map (·.path)) {} (A ++ B)
      (us ++ vs.map (·.move start)) := by
    have hmoved : CompilationUnit.Collects (B.map (·.path)) (({} : Offsets).add start) B
        (vs.map (·.move start)) := hvs.move
    rw [Offsets.zero_add] at hmoved
    refine (hus.mono ?_).append ?_
    · simp
    · rw [← hstart]
      exact hmoved.mono (by simp)
  have hlength := hus.forall₂.length_eq.symm
  -- the totals count lines, and every line was encoded to one instruction
  have hsize : start.instruction = code.length := by
    rw [hinstruction, ← (hus.encodes hcode).length_eq, length_linkedLines]
    exact Nat.zero_add _
  rw [← Link.program_append hsize (hstring.trans (Nat.zero_add _))]
  refine link_eq_ok_iff.2 ⟨_, _, CompilationUnit.collectAll_eq_ok_iff.2 hcollects,
    visibleDuplicate?_move hseparate hduplicate hduplicate', ?_, rfl⟩
  have hcount := hcollects.forall₂.imp fun _ _ hu => hu.instructionCount
  refine (Link.code_eq_ok_iff hcount).2 ?_
  rw [linkedLines_append]
  refine List.rel_append ((hus.encodes hcode).imp fun _ _ hx => hx.append_left hseparate hlength) ?_
  refine List.forall₂_map_left_iff.2 (List.forall₂_map_right_iff.2 ?_)
  exact (hvs.encodes hcode').imp fun _ _ hx => hx.append_right hseparate hlength

section Sources

variable {files A B : List SourceFile}

theorem MacroTable.ofFiles_append (hA : ofFiles A = .ok []) : ofFiles (A ++ B) = ofFiles B := by
  unfold ofFiles at hA ⊢
  rw [List.foldlM_append, hA]
  rfl

theorem expandMacros_append {expanded expanded' : List SourceFile}
    (hA : MacroTable.ofFiles A = .ok []) (hB : MacroTable.ofFiles B = .ok [])
    (h : expandMacros A = .ok expanded) (h' : expandMacros B = .ok expanded') :
    expandMacros (A ++ B) = .ok (expanded ++ expanded') := by
  unfold expandMacros at h h' ⊢
  rw [hA] at h
  rw [hB] at h'
  rw [MacroTable.ofFiles_append hA, hB]
  refine bind_eq_ok_iff.2 ⟨[], rfl, ?_⟩
  rw [List.mapM_append]
  refine bind_eq_ok_iff.2 ⟨expanded, h, bind_eq_ok_iff.2 ⟨expanded', h', rfl⟩⟩

theorem MacroTable.path_of_expandFile {table : MacroTable} {f g : SourceFile}
    (h : table.expandFile f = .ok g) : g.path = f.path := by
  obtain ⟨segs, -, h⟩ := bind_eq_ok_iff.1 h
  obtain ⟨ls, -, h⟩ := bind_eq_ok_iff.1 h
  obtain rfl := pure_eq_ok_iff.1 h
  rfl

theorem map_path_of_expandMacros {expanded : List SourceFile}
    (h : expandMacros files = .ok expanded) :
    expanded.map (·.path) = files.map (·.path) := by
  obtain ⟨table, -, hfiles⟩ := bind_eq_ok_iff.1 h
  have hall := forall₂_of_mapM_eq_ok hfiles
  clear h hfiles
  induction hall with
  | nil => rfl
  | cons hf _ ih => rw [List.map_cons, List.map_cons, MacroTable.path_of_expandFile hf, ih]

theorem compile_append {p q : Program} (hA : MacroTable.ofFiles A = .ok [])
    (hB : MacroTable.ofFiles B = .ok []) (hpaths : ∀ f ∈ A, ∀ g ∈ B, f.path ≠ g.path)
    (hp : compile A = .ok p) (hq : compile B = .ok q) : compile (A ++ B) = .ok (p.append q) := by
  obtain ⟨expanded, hexpanded, hp⟩ := bind_eq_ok_iff.1 hp
  obtain ⟨expanded', hexpanded', hq⟩ := bind_eq_ok_iff.1 hq
  refine bind_eq_ok_iff.2 ⟨_, expandMacros_append hA hB hexpanded hexpanded', ?_⟩
  refine link_append (fun f hf g hg heq => ?_) hp hq
  have hf : f.path ∈ A.map (·.path) := by
    rw [← map_path_of_expandMacros hexpanded]
    exact List.mem_map_of_mem hf
  have hg : g.path ∈ B.map (·.path) := by
    rw [← map_path_of_expandMacros hexpanded']
    exact List.mem_map_of_mem hg
  obtain ⟨f', hf', hfpath⟩ := List.mem_map.1 hf
  obtain ⟨g', hg', hgpath⟩ := List.mem_map.1 hg
  exact hpaths f' hf' g' hg' (hfpath.trans (heq.trans hgpath.symm))

theorem wellFormed_of_link {p : Program} (h : link files = .ok p) : p.WellFormed := by
  obtain ⟨units, code, hunits, -, hcode, rfl⟩ := link_eq_ok_iff.1 h
  exact wellFormed_program hunits hcode

end Sources

/-- Files compile behind others, with which they share no path, to what they compile to alone, with
every reference moved behind the instructions and strings of the others. -/
theorem compile_append_of_size_lt {A B : List SourceFile} {p q : Program}
    (hA : MacroTable.ofFiles A = .ok []) (hB : MacroTable.ofFiles B = .ok [])
    (hpaths : ∀ f ∈ A, ∀ g ∈ B, f.path ≠ g.path) (hp : compile A = .ok p) (hq : compile B = .ok q)
    (hsize : p.size + q.size < 2 ^ 32) (hstrings : p.strings.size + q.strings.size < 2 ^ 32) :
    compile (A ++ B) = .ok (p.append q) ∧ q.MovesExactly p.size p.strings.size := by
  constructor
  · exact compile_append hA hB hpaths hp hq
  · obtain ⟨expanded, -, hlink⟩ := bind_eq_ok_iff.1 hq
    exact (wellFormed_of_link hlink).movesExactly hsize hstrings

/-- A loop and a call, with a literal each, behind a file of the same shape. -/
theorem compile_append_of_size_lt_two_files :
    ∃ A B p q, MacroTable.ofFiles A = .ok [] ∧ MacroTable.ofFiles B = .ok [] ∧
      compile A = .ok p ∧ compile B = .ok q ∧ compile (A ++ B) = .ok (p.append q) ∧
      (p.append q).instructions.toList.drop 2 =
        [⟨.ldstr, [.register 1, .string 1]⟩, ⟨.call, [.target 2]⟩, ⟨.jmp, [.target 3]⟩] ∧
      q.MovesExactly 2 1 := by
  let A : List SourceFile :=
    [{ path := "a.s".toList, text := "loop:\nldstr R0, \"a\"\njmp loop".toList }]
  let B : List SourceFile :=
    [{ path := "b.s".toList
       text := "function f:\nldstr R1, \"b\"\nloop: ; again\ncall F\njmp LOOP".toList }]
  let p : Program :=
    { instructions := #[⟨.ldstr, [.register 0, .string 0]⟩, ⟨.jmp, [.target 0]⟩]
      labels := #[⟨"loop".toList, 0⟩]
      strings := #["a".toList]
      locations :=
        #[⟨"a.s".toList, 2, "ldstr R0, \"a\"".toList⟩, ⟨"a.s".toList, 3, "jmp loop".toList⟩] }
  let q : Program :=
    { instructions :=
        #[⟨.ldstr, [.register 1, .string 0]⟩, ⟨.call, [.target 0]⟩, ⟨.jmp, [.target 1]⟩]
      functions := #[⟨"f".toList, 0⟩]
      labels := #[⟨"loop".toList, 1⟩]
      strings := #["b".toList]
      locations :=
        #[⟨"b.s".toList, 2, "ldstr R1, \"b\"".toList⟩, ⟨"b.s".toList, 4, "call F".toList⟩,
          ⟨"b.s".toList, 5, "jmp LOOP".toList⟩] }
  have hA : MacroTable.ofFiles A = .ok [] := by decide +kernel
  have hB : MacroTable.ofFiles B = .ok [] := by decide +kernel
  have hp : compile A = .ok p := by decide +kernel
  have hq : compile B = .ok q := by decide +kernel
  have hpaths : ∀ f ∈ A, ∀ g ∈ B, f.path ≠ g.path := by decide +kernel
  obtain ⟨hcompile, hmoves⟩ :=
    compile_append_of_size_lt hA hB hpaths hp hq (by decide) (by decide)
  exact ⟨A, B, p, q, hA, hB, hp, hq, hcompile, by decide +kernel, hmoves⟩

end RegisterMachine
