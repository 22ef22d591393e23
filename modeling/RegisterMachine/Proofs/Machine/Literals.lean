import RegisterMachine.Proofs.Assembly.Linking
import RegisterMachine.Proofs.Assembly.Literals
import RegisterMachine.Proofs.Machine.Step

/-!
# Literals at run time

A string load puts an index in its register, and the services find the literal by that index. The
literal they find is the one that stands in the source on the line of the instruction.
-/

namespace RegisterMachine

namespace Machine

variable {r : Registry} {m : Machine} {n : UInt8} {s : UInt32}

theorem loadString_register (hn : n.toNat < registerCount) :
    loadString ⟨.ldstr, [.register n, .string s]⟩ m =
      (.ok (), { m with registers := m.registers.set n.toNat s.toInt32 }) := by
  show write (.register n) s.toInt32 m = _
  rw [write, dif_pos hn]
  rfl

theorem step_loadString
    (hi : m.program.instructions[m.pc]? = some ⟨.ldstr, [.register n, .string s]⟩)
    (hn : (Operand.register n).IsGeneral) :
    ∃ m', m.step r = (.ok none, m') ∧ m'.program = m.program ∧
      m'.read (.register n) = .ok s.toInt32 := by
  have hn : n.toNat < registerCount := hn
  let noted := m.note fun _ => .executing m.pc ⟨.ldstr, [.register n, .string s]⟩
  let loaded := { noted with registers := m.registers.set n.toNat s.toInt32 }
  have hperform : perform ⟨.ldstr, [.register n, .string s]⟩ noted = (.ok .next, loaded) :=
    Action.bind_of_ok (loadString_register hn) _
  exact ⟨_, step_of_perform_eq_next hi (by simp) hperform, rfl, by simp [read, hn, loaded]⟩

end Machine

theorem toInt_toInt32_of_lt {s : UInt32} (hs : s.toNat < 2 ^ 31) :
    s.toInt32.toInt = s.toNat := by
  change s.toBitVec.toInt = _
  rw [BitVec.toInt_eq_toNat_of_lt]
  · rfl
  · change 2 * s.toNat < 2 ^ 32
    omega

/-- A word finds the literal of its index, as long as it is no negative number. -/
theorem Program.literal?_toInt32 {p : Program} {s : UInt32} (hs : s.toNat < 2 ^ 31) :
    p.literal? s.toInt32 = p.strings[s.toNat]? := by
  have hint := toInt_toInt32_of_lt hs
  have hindex : Word.index? s.toInt32 = some s.toNat := by
    have hnonneg : 0 ≤ s.toInt32.toInt := by
      rw [hint]
      exact Int.natCast_nonneg _
    rw [Word.index?_of_nonneg hnonneg, hint]
    rfl
  rw [Program.literal?, hindex]
  rfl

/-- A program whose string loads hold the literals of files: each leaves the index of the literal on
its own line, loads in one file share an index where they share a literal, and the strings are the
literals of the files without repetitions, in the order of their first use. -/
structure Program.HasLiterals (p : Program) (files : List SourceFile) : Prop where
  strings : p.strings.toList = files.flatMap fun f => f.literals.eraseDups
  opcode_eq_ldstr_iff {pc : Nat} {line : Nat × CodeLine} {i : Instruction}
    (hline : (linkedLines files)[pc]? = some line) (hi : p.instructions[pc]? = some i) :
    i.opcode = .ldstr ↔ isStringLoad line.2.code
  loads {pc : Nat} {dest : Operand} {s : UInt32}
    (hi : p.instructions[pc]? = some ⟨.ldstr, [dest, .string s]⟩) :
    ∃ location literal, p.locations[pc]? = some location ∧
      p.strings[s.toNat]? = some literal ∧ Text.quoted? location.text = some literal ∧
      ∀ (r : Registry) (m : Machine), m.program = p → m.pc = pc →
        ∃ m' index, m.step r = (.ok none, m') ∧ m'.read dest = .ok index ∧
          m'.program.literal? index = some literal
  index_eq_iff {pc pc' : Nat} {line line' : Nat × CodeLine} {dest dest' : Operand} {s s' : UInt32}
    (hline : (linkedLines files)[pc]? = some line) (hline' : (linkedLines files)[pc']? = some line')
    (hfile : line.1 = line'.1) (hi : p.instructions[pc]? = some ⟨.ldstr, [dest, .string s]⟩)
    (hi' : p.instructions[pc']? = some ⟨.ldstr, [dest', .string s']⟩) :
    s = s' ↔ Text.quoted? line.2.code = Text.quoted? line'.2.code

section Link

variable {files : List SourceFile} {units : List CompilationUnit}
  {code : List (Instruction × SourceLocation)} {pc : Nat}

theorem Link.getElem?_instructions_eq_some_iff {i : Instruction} :
    (program units code).instructions[pc]? = some i ↔ ∃ location, code[pc]? = some (i, location) := by
  simp [program]

/-- What a string load of a linked program is made of; its index is no larger than it was before it
was cut to a word. -/
theorem CompilationUnit.Collects.exists_string {paths : List Text} {line : Nat × CodeLine}
    {dest : Operand} {s : UInt32} (h : Collects paths {} files units)
    (hcode : Link.code (.ofUnits units) files = .ok code)
    (hsize : (Link.program units code).strings.size < 2 ^ 31)
    (hline : (linkedLines files)[pc]? = some line)
    (hi : (Link.program units code).instructions[pc]? = some ⟨.ldstr, [dest, .string s]⟩) :
    ∃ u n literal, units[line.1]? = some u ∧ (Operand.register n).IsGeneral ∧
      dest = .register n ∧ Text.quoted? line.2.code = some literal ∧
      u.strings.index.lookup literal = some s.toNat ∧
      (Link.program units code).strings[s.toNat]? = some literal := by
  obtain ⟨location, hx⟩ := Link.getElem?_instructions_eq_some_iff.1 hi
  obtain ⟨u, n, literal, index, hu, hn, hops, -, hliteral, hindex, htext⟩ :=
    h.exists_literal hcode hline hx rfl
  obtain ⟨rfl, hs⟩ : dest = .register n ∧ s = UInt32.ofNat index := by simpa using hops
  have htext' : (Link.program units code).strings[index]? = some literal := by
    simpa [Link.program] using htext
  have hlt : index < 2 ^ 31 := by
    obtain ⟨hlt, -⟩ := Array.getElem?_eq_some_iff.1 htext'
    omega
  have hexact : s.toNat = index := by
    rw [hs, UInt32.toNat_ofNat', Nat.mod_eq_of_lt (by omega)]
  rw [← hexact] at hindex htext'
  exact ⟨u, n, literal, hu, hn, rfl, hliteral, hindex, htext'⟩

theorem hasLiterals_program (hunits : CompilationUnit.collectAll files = .ok units)
    (hcode : Link.code (.ofUnits units) files = .ok code)
    (hsize : (Link.program units code).strings.size < 2 ^ 31) :
    (Link.program units code).HasLiterals files := by
  have hcollects := CompilationUnit.collects_of_collectAll hunits
  have hlength := (hcollects.encodes hcode).length_eq
  constructor
  case strings => exact hcollects.texts_eq
  case opcode_eq_ldstr_iff =>
    intro pc line i hline hi
    obtain ⟨location, hx⟩ := Link.getElem?_instructions_eq_some_iff.1 hi
    exact hcollects.opcode_eq_ldstr_iff hcode hline hx
  case loads =>
    intro pc dest s hi
    obtain ⟨location, hx⟩ := Link.getElem?_instructions_eq_some_iff.1 hi
    obtain ⟨hpc, -⟩ := List.getElem?_eq_some_iff.1 hx
    have hline : (linkedLines files)[pc]? = some (linkedLines files)[pc] :=
      List.getElem?_eq_getElem (hlength ▸ hpc)
    obtain ⟨u, n, literal, -, hn, rfl, hliteral, -, htext⟩ :=
      hcollects.exists_string hcode hsize hline hi
    refine ⟨location, literal, by simp [Link.program, hx], htext, ?_, ?_⟩
    · rw [hcollects.text_eq hcode hline hx, hliteral]
    · rintro r m hm rfl
      obtain ⟨m', hstep, hprogram, hread⟩ := Machine.step_loadString (hm ▸ hi) hn
      refine ⟨m', s.toInt32, hstep, hread, ?_⟩
      have hlt : s.toNat < 2 ^ 31 := by
        obtain ⟨hlt, -⟩ := Array.getElem?_eq_some_iff.1 htext
        omega
      rw [hprogram, hm, Program.literal?_toInt32 hlt, htext]
  case index_eq_iff =>
    intro pc pc' line line' dest dest' s s' hline hline' hfile hi hi'
    obtain ⟨u, _, literal, hu, -, -, hliteral, hindex, htext⟩ :=
      hcollects.exists_string hcode hsize hline hi
    obtain ⟨u', _, literal', hu', -, -, hliteral', hindex', htext'⟩ :=
      hcollects.exists_string hcode hsize hline' hi'
    rw [← hfile, hu] at hu'
    obtain rfl := Option.some.inj hu'
    rw [hliteral, hliteral', Option.some.injEq]
    constructor
    · rintro rfl
      exact Option.some.inj (htext.symm.trans htext')
    · rintro rfl
      exact UInt32.toNat_inj.1 (Option.some.inj (hindex.symm.trans hindex'))

end Link

/-- The literals of compiled files survive to the run: what stands between the quotes of a line is
what the services find under the index that its instruction loads. -/
theorem hasLiterals_of_compile {files : List SourceFile} {p : Program} (h : compile files = .ok p)
    (hsize : p.strings.size < 2 ^ 31) :
    ∃ expanded, expandMacros files = .ok expanded ∧ p.HasLiterals expanded := by
  obtain ⟨expanded, hexpanded, hlink⟩ := bind_eq_ok_iff.1 h
  obtain ⟨units, code, hunits, hcode, rfl, -⟩ := eq_program_of_link hlink
  exact ⟨expanded, hexpanded, hasLiterals_program hunits hcode hsize⟩

/-- A literal may hold commas and semicolons or nothing at all; it is shared within a file and kept
apart between files. -/
theorem hasLiterals_of_compile_two_files :
    ∃ files p, compile files = .ok p ∧ p.strings = #["a, b;".toList, [], "a, b;".toList] ∧
      p.instructions.map (·.operands[1]?) =
        #[some (.string 0), some (.string 1), some (.string 0), some (.string 2)] ∧
      p.strings.size < 2 ^ 31 ∧
      ∃ expanded, expandMacros files = .ok expanded ∧ p.HasLiterals expanded := by
  let main : SourceFile :=
    { path := "main.s".toList
      text := "ldstr R1, \"a, b;\" ; first\nldstr R2, \"\"\nLDSTR r3 \"a, b;\"".toList }
  let lib : SourceFile := { path := "lib.s".toList, text := "ldstr R0, \"a, b;\"".toList }
  let p : Program :=
    { instructions :=
        #[⟨.ldstr, [.register 1, .string 0]⟩, ⟨.ldstr, [.register 2, .string 1]⟩,
          ⟨.ldstr, [.register 3, .string 0]⟩, ⟨.ldstr, [.register 0, .string 2]⟩]
      strings := #["a, b;".toList, [], "a, b;".toList]
      locations :=
        #[⟨"main.s".toList, 1, "ldstr R1, \"a, b;\"".toList⟩,
          ⟨"main.s".toList, 2, "ldstr R2, \"\"".toList⟩,
          ⟨"main.s".toList, 3, "LDSTR r3 \"a, b;\"".toList⟩,
          ⟨"lib.s".toList, 1, "ldstr R0, \"a, b;\"".toList⟩] }
  have hp : compile [main, lib] = .ok p := by decide +kernel
  have hsize : p.strings.size < 2 ^ 31 := by decide
  exact ⟨[main, lib], p, hp, rfl, by decide +kernel, hsize, hasLiterals_of_compile hp hsize⟩

end RegisterMachine
