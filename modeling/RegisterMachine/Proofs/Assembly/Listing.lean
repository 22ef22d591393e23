import RegisterMachine.Proofs.Assembly.WellFormed
import RegisterMachine.Proofs.Macro.Definition
import RegisterMachine.Proofs.Program.Listing

/-!
# Listings of compiled programs

The names that the assembler declares hold no line ends, so the lines of a compiled program's
listing are those that `Program.listing` selects. All labels have their line. Functions are looked
up by address, which gives one of them: of several functions in front of one instruction only the
last is shown.
-/

namespace RegisterMachine

namespace CompilationUnit

variable {paths : List Text} {base : Offsets} {files : List SourceFile}
  {units : List CompilationUnit} {u u' : CompilationUnit} {number : Nat} {raw : Text}

def HasSymbolNames (u : CompilationUnit) : Prop :=
  ∀ s ∈ u.functions.symbols ++ u.labels.symbols, isSymbolName s.name

theorem Takes.hasSymbolNames (h : u.Takes paths number raw u') (hu : u.HasSymbolNames) :
    u'.HasSymbolNames := by
  simp only [HasSymbolNames, List.forall_mem_append] at hu ⊢
  obtain ⟨hfunctions, hlabels⟩ := hu
  cases h with
  | function _ hname ht =>
    obtain ⟨-, rfl⟩ := SymbolTable.eq_of_declare? ht
    refine ⟨?_, hlabels⟩
    exact List.forall_mem_append.2 ⟨hfunctions, List.forall_mem_singleton.2 hname⟩
  | label _ hname ht =>
    obtain ⟨-, rfl⟩ := SymbolTable.eq_of_declare? ht
    refine ⟨hfunctions, ?_⟩
    exact List.forall_mem_append.2 ⟨hlabels, List.forall_mem_singleton.2 hname⟩
  | _ => exact ⟨hfunctions, hlabels⟩

theorem Collects.hasSymbolNames (h : Collects paths base files units) :
    ∀ u ∈ units, u.HasSymbolNames := by
  induction h with
  | nil => simp
  | cons h _ ih =>
    refine List.forall_mem_cons.2 ⟨?_, ih⟩
    exact (reads_of_collect h).preserves Takes.hasSymbolNames (by simp [HasSymbolNames, empty])

end CompilationUnit

theorem hasRowNames_of_compile {files : List SourceFile} {p : Program}
    (h : compile files = .ok p) : p.HasRowNames := by
  obtain ⟨expanded, -, hlink⟩ := bind_eq_ok_iff.1 h
  obtain ⟨units, code, hunits, -, rfl, -⟩ := eq_program_of_link hlink
  have hnames := (CompilationUnit.collects_of_collectAll hunits).hasSymbolNames
  intro s hs
  refine Text.isRow_of_isBlank_eq_false (Line.isBlank_eq_false_of_isSymbolName ?_)
  rcases List.mem_append.1 hs with hs | hs
  · obtain ⟨u, hu, hmem⟩ := List.mem_flatMap.1 hs
    exact hnames u hu s (List.mem_append_left _ hmem)
  · obtain ⟨u, hu, hmem⟩ := List.mem_flatMap.1 hs
    exact hnames u hu s (List.mem_append_right _ hmem)

/-- What the listing of a program shows of its symbols. Its lines are cut into gaps by the lines of
the instructions, which stand in order. -/
structure Program.ShowsSymbols (p : Program) : Prop where
  /-- The text consists of the rows of the lines. -/
  lines : Text.lines p.listingText = p.listing.flatMap (·.rows p)
  length : (p.listing.filter (·.isInstruction)).length = p.size
  instruction : ∀ n i, p.instructions[n]? = some i →
    ∃ mark, (p.listing.filter (·.isInstruction))[n]? = some (.instruction n mark i) ∧
      (mark = true ↔ p.LeadsTo (UInt32.ofNat n))
  /-- A function has its header iff no function behind it in the table has the same address. -/
  function : ∀ s : Symbol, s.address.toNat < p.size →
    (.functionHeader s.name ∈ p.gap s.address.toNat ↔ p.IsLast s)
  labels : ∀ a : UInt32, a.toNat < p.size →
    (p.gap a.toNat).filter (·.isLabelMark) =
      (p.labels.toList.filter (·.address == a)).map (.labelMark ·.name)
  endLabels : ∀ a : UInt32, a.toNat = p.size →
    p.gap a.toNat = (p.labels.toList.filter (·.address == a)).map (.endLabel ·.name)

/-- The listing of a compiled program has a line for every label, a mark for every target, and for
every address the header of the last function there. -/
theorem showsSymbols_of_compile {files : List SourceFile} {p : Program}
    (h : compile files = .ok p) : p.ShowsSymbols where
  lines := (hasRowNames_of_compile h).lines_listingText
  length := by simp [Program.filter_listing, Program.size]
  instruction _ _ := Program.exists_instruction_of_getElem?
  function _ := Program.functionHeader_mem_gap_iff
  labels _ := Program.filter_isLabelMark_gap
  endLabels _ := Program.gap_of_eq

/-- Two functions and two labels stand in front of the first instruction, and a label behind the
last. -/
theorem showsSymbols_of_compile_shared_address :
    ∃ files p, compile files = .ok p ∧ p.functions = #[⟨"f".toList, 0⟩, ⟨"g".toList, 0⟩] ∧
      p.labels = #[⟨"k".toList, 0⟩, ⟨"l".toList, 0⟩, ⟨"end".toList, 1⟩] ∧ p.ShowsSymbols := by
  let main : SourceFile :=
    { path := "main.s".toList
      text := "function f:\nk:\nfunction g:\nl:\njmp end\nend:\n".toList }
  let p : Program :=
    { instructions := #[⟨.jmp, [.target 1]⟩]
      functions := #[⟨"f".toList, 0⟩, ⟨"g".toList, 0⟩]
      labels := #[⟨"k".toList, 0⟩, ⟨"l".toList, 0⟩, ⟨"end".toList, 1⟩]
      locations := #[⟨"main.s".toList, 5, "jmp end".toList⟩] }
  have hp : compile [main] = .ok p := by decide +kernel
  exact ⟨[main], p, hp, rfl, rfl, showsSymbols_of_compile hp⟩

/-- The header of a function is missing if another function is declared directly behind it. -/
theorem exists_unlisted_function_of_compile :
    ∃ p, compile [{ path := "main.s".toList, text := "function f:\nfunction g:\nret\n".toList }] =
        .ok p ∧
      ⟨"f".toList, 0⟩ ∈ p.functions ∧ 0 < p.size ∧ .functionHeader "f".toList ∉ p.gap 0 ∧
      " function f".toList ∉ Text.lines p.listingText := by
  let p : Program :=
    { instructions := #[⟨.ret, []⟩]
      functions := #[⟨"f".toList, 0⟩, ⟨"g".toList, 0⟩]
      locations := #[⟨"main.s".toList, 3, "ret".toList⟩] }
  exact ⟨p, by decide +kernel, by simp [p], by decide, by decide +kernel, by decide +kernel⟩

end RegisterMachine
