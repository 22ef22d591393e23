import RegisterMachine.Proofs.Assembly.OperandCounts

/-!
# Instructions as lines of source

Registers and integers are written in full, with nothing to look up and nothing to round
(`Operand.IsExact`), and are read back as they were written (`Operand.read_text`). The text of an
instruction with such operands is a line of source, and it is encoded to the instruction exactly if
the operands suit the opcode (`Encoding.encodeLine_text_iff`).
-/

namespace RegisterMachine

namespace Operand

/-- An operand whose text stands for it alone: a register or an integer. -/
def IsExact : Operand → Prop
  | register _ | syscallRegister _ | immediate _ => True
  | _ => False

variable {o : Operand} {c : Char}

/-- The text of an integer is in the grammar of the operands. -/
theorem spells_ofInt (value : Int32) : Spells (Numeral.ofInt value.toInt) (.immediate value) := by
  have hdigits := Numeral.spells_ofNat value.toInt.natAbs
  unfold Numeral.ofInt
  split
  · rename_i hneg
    exact .negative hdigits (by omega)
  · rename_i hneg
    exact .integer hdigits (by omega)

theorem spells_text (hexact : o.IsExact) (hsource : o.IsSource) : Spells o.text o := by
  cases o with
  | register n => exact .register (by simp) (Numeral.spells_ofNat n.toNat) hsource
  | syscallRegister n => exact .syscallRegister (by simp) (Numeral.spells_ofNat n.toNat) hsource
  | immediate value => exact spells_ofInt value
  | float | target | string => exact hexact.elim

/-- No white space, no comma and no point stands in the text of a register or an integer. -/
theorem isAlphanum_of_mem_text (hexact : o.IsExact) (hc : c ∈ o.text) :
    c.isAlphanum ∨ c = '-' := by
  cases o with
  | register n | syscallRegister n =>
    rcases List.mem_cons.1 hc with rfl | hc
    · exact .inl (by decide)
    · exact .inl (Numeral.isAlphanum_of_mem_ofNat hc)
  | immediate value => exact Numeral.isAlphanum_of_mem_ofInt hc
  | float | target | string => exact hexact.elim

theorem text_ne_nil (hexact : o.IsExact) : o.text ≠ [] := by
  cases o with
  | register n | syscallRegister n => exact List.cons_ne_nil _ _
  | immediate value => exact Numeral.ofInt_ne_nil _
  | float | target | string => exact hexact.elim

/-- What is written for a register or an integer is read as the same register or integer. -/
theorem read_text (hexact : o.IsExact) (hsource : o.IsSource) : read o.text = .ok o := by
  refine read_of_spells (spells_text hexact hsource) fun hpoint => ?_
  rcases isAlphanum_of_mem_text hexact hpoint with h | h <;> exact absurd h (by decide)

end Operand

theorem Line.classify_of_trim {raw s : Text} {c : Char} (htrim : Text.trim raw = c :: s)
    (hc : c ≠ ';') : classify raw = ofCode (Text.trimEnd (Text.stripComment (c :: s))) := by
  unfold classify
  rw [htrim]
  split
  · rename_i hnil
    cases hnil
  · rename_i hsemicolon
    exact absurd (List.cons.inj hsemicolon).1 hc
  · rename_i hcons
    rw [hcons]

namespace Instruction

variable {instr : Instruction} {o : Operand} {c : Char}

theorem isAlphanum_of_mem_mnemonic {op : Opcode} (hc : c ∈ op.mnemonic) : c.isAlphanum := by
  simp [Char.isAlphanum, (Encoding.isAlpha_of_ofMnemonic? op.ofMnemonic?_mnemonic).2 c hc]

theorem isSeparator_eq_false_of_mem_text (hexact : o.IsExact) (hc : c ∈ o.text) :
    Encoding.isSeparator c = false := by
  rcases Operand.isAlphanum_of_mem_text hexact hc with h | rfl
  · exact Encoding.isSeparator_eq_false_of_isAlphanum h
  · decide

/-- The text of an instruction is cut into its mnemonic and the texts of its operands. -/
theorem tokens_text (hexact : ∀ o ∈ instr.operands, o.IsExact) :
    Encoding.tokens instr.text = instr.opcode.mnemonic :: instr.operands.map Operand.text := by
  obtain ⟨op, ops⟩ := instr
  have hmnemonic (c : Char) (hc : c ∈ op.mnemonic) : Encoding.isSeparator c = false :=
    Encoding.isSeparator_eq_false_of_isAlphanum (isAlphanum_of_mem_mnemonic hc)
  have hne : op.mnemonic ≠ [] := (Encoding.isAlpha_of_ofMnemonic? op.ofMnemonic?_mnemonic).1
  cases ops with
  | nil =>
    have hwords : Text.words Encoding.isSeparator (op.mnemonic ++ []) = [op.mnemonic] :=
      Text.words_append hmnemonic hne (by simp)
    rwa [List.append_nil] at hwords
  | cons o ops =>
    have hops : ∀ w ∈ (o :: ops).map Operand.text,
        w ≠ [] ∧ ∀ c ∈ w, Encoding.isSeparator c = false := by
      intro w hw
      obtain ⟨a, ha, rfl⟩ := List.mem_map.1 hw
      exact ⟨Operand.text_ne_nil (hexact a ha),
        fun c hc => isSeparator_eq_false_of_mem_text (hexact a ha) hc⟩
    have hspace : Encoding.isSeparator ' ' := by decide
    have hsep : [',', ' '].all Encoding.isSeparator := by decide
    calc Text.words Encoding.isSeparator (op.mnemonic ++ ' ' :: Text.join [',', ' '] _)
        = op.mnemonic :: Text.words Encoding.isSeparator (' ' :: Text.join [',', ' '] _) :=
          Text.words_append hmnemonic hne (by simp [hspace])
      _ = op.mnemonic :: Text.words Encoding.isSeparator (Text.join [',', ' '] _) := by
          rw [Text.words_cons_of_pos hspace]
      _ = op.mnemonic :: (o :: ops).map Operand.text := by
          rw [Text.words_join (List.all_eq_true.1 hsep) (by decide) hops]

/-- The text starts with the mnemonic, and behind it stand the operands. -/
theorem exists_text_eq_append (instr : Instruction) :
    ∃ rest, instr.text = instr.opcode.mnemonic ++ rest ∧
      (rest = [] ∨ rest = ' ' :: Text.join [',', ' '] (instr.operands.map Operand.text)) := by
  obtain ⟨op, ops⟩ := instr
  cases ops with
  | nil => exact ⟨[], by simp [text], .inl rfl⟩
  | cons o ops => exact ⟨_, rfl, .inr rfl⟩

theorem mem_of_mem_text (hexact : ∀ o ∈ instr.operands, o.IsExact) (hc : c ∈ instr.text) :
    c.isAlphanum ∨ c ∈ ['-', ' ', ','] := by
  obtain ⟨rest, htext, hrest⟩ := instr.exists_text_eq_append
  rw [htext] at hc
  rcases List.mem_append.1 hc with hc | hc
  · exact .inl (isAlphanum_of_mem_mnemonic hc)
  · rcases hrest with rfl | rfl
    · cases hc
    · rcases List.mem_cons.1 hc with rfl | hc
      · exact .inr (by decide)
      · rcases Text.mem_of_mem_join hc with hc | ⟨w, hw, hc⟩
        · have hsub : [',', ' '] ⊆ ['-', ' ', ','] := by decide
          exact .inr (hsub hc)
        · obtain ⟨o, ho, rfl⟩ := List.mem_map.1 hw
          rcases Operand.isAlphanum_of_mem_text (hexact o ho) hc with h | rfl
          · exact .inl h
          · exact .inr (by decide)

theorem isBlank_eq_false_of_getLast? (hexact : ∀ o ∈ instr.operands, o.IsExact)
    (hc : c ∈ instr.text.getLast?) : Text.isBlank c = false := by
  obtain ⟨op, ops⟩ := instr
  cases ops with
  | nil =>
    have halpha : c.isAlphanum := isAlphanum_of_mem_mnemonic (List.mem_of_getLast? hc)
    exact Text.isBlank_eq_false_of_isAlphanum (by simp [halpha])
  | cons o ops =>
    have hops : ∀ w ∈ (o :: ops).map Operand.text, w ≠ [] := by
      intro w hw
      obtain ⟨a, ha, rfl⟩ := List.mem_map.1 hw
      exact Operand.text_ne_nil (hexact a ha)
    have hjoin : Text.join [',', ' '] ((o :: ops).map Operand.text) ≠ [] :=
      Text.join_ne_nil hops (by simp)
    have htext : (⟨op, o :: ops⟩ : Instruction).text =
        (op.mnemonic ++ [' ']) ++ Text.join [',', ' '] ((o :: ops).map Operand.text) := by
      simp [text]
    rw [htext, List.getLast?_append_of_ne_nil _ hjoin] at hc
    obtain ⟨w, hw, hc⟩ := Text.exists_mem_of_getLast?_join hops hc
    obtain ⟨a, ha, rfl⟩ := List.mem_map.1 hw
    have hseparator := isSeparator_eq_false_of_mem_text (hexact a ha) hc
    exact (Bool.or_eq_false_iff.1 hseparator).1

/-- The text of an instruction is the code of the line that it makes. -/
theorem classify_text (hexact : ∀ o ∈ instr.operands, o.IsExact) :
    Line.classify instr.text = .instruction instr.text := by
  obtain ⟨rest, htext, -⟩ := instr.exists_text_eq_append
  have hnone {c : Char} (hc : c.isAlphanum = false ∧ c ∉ ['-', ' ', ',']) : c ∉ instr.text := by
    intro hmem
    rcases mem_of_mem_text hexact hmem with h | h
    · rw [hc.1] at h
      cases h
    · exact hc.2 h
  have hlast : ∀ c ∈ instr.text.getLast?, Text.isBlank c = false :=
    fun c hc => isBlank_eq_false_of_getLast? hexact hc
  obtain ⟨d, s, hhead⟩ : ∃ d s, instr.opcode.mnemonic = d :: s :=
    List.exists_cons_of_ne_nil (Encoding.isAlpha_of_ofMnemonic? instr.opcode.ofMnemonic?_mnemonic).1
  have hd : d.isAlphanum := isAlphanum_of_mem_mnemonic (hhead ▸ List.mem_cons_self)
  have hcons : instr.text = d :: (s ++ rest) := by rw [htext, hhead, List.cons_append]
  have htrim : Text.trim instr.text = d :: (s ++ rest) := by
    rw [← hcons]
    refine Text.trim_eq_self (fun c hc => ?_) hlast
    rw [hcons] at hc
    cases hc
    exact Text.isBlank_eq_false_of_isAlphanum (by simp [hd])
  have hcode : Text.trimEnd (Text.stripComment instr.text) = instr.text := by
    rw [Text.stripComment_of_notMem (hnone (by decide)), Text.trimEnd_eq_self hlast]
  have himport : Line.afterKeyword? Line.importKeyword instr.text = none := by
    rw [htext]
    cases instr.opcode <;> rfl
  have hcolon : Text.dropLast? ':' instr.text = none := by
    refine Option.eq_none_iff_forall_ne_some.2 fun decl hdecl => ?_
    have hmem : ':' ∈ instr.text := by simp [Text.eq_append_of_dropLast? hdecl]
    exact hnone (by decide) hmem
  have hcomment : d ≠ ';' := by
    rintro rfl
    exact absurd hd (by decide)
  calc Line.classify instr.text
      = Line.ofCode (Text.trimEnd (Text.stripComment (d :: (s ++ rest)))) :=
        Line.classify_of_trim htrim hcomment
    _ = Line.ofCode instr.text := by rw [← hcons, hcode]
    _ = .instruction instr.text := by simp only [Line.ofCode, himport, hcolon]

end Instruction

namespace Encoding

variable {instr : Instruction} {p : Program} {c : Collection} {i number : Nat} {u : CompilationUnit}

/-- What is well formed and holds no name, no literal and no float is a mnemonic alone, or one with
a destination and a source. -/
theorem exists_of_wellFormed (hexact : ∀ o ∈ instr.operands, o.IsExact) (h : instr.WellFormed p) :
    (instr.opcode.shape = .none ∧ instr.operands = []) ∨
      instr.opcode.shape = .pair ∧ ∃ dest src, instr.operands = [dest, src] ∧
        dest.IsSource ∧ src.IsSource := by
  cases h with
  | plain hop => exact .inl ⟨Opcode.shape_eq_none_iff.2 hop, rfl⟩
  | jump => exact (hexact _ List.mem_cons_self).elim
  | loadString => exact (hexact _ (List.mem_cons_of_mem _ List.mem_cons_self)).elim
  | move hd hs => exact .inr ⟨rfl, _, _, rfl, hd.isSource, hs⟩
  | access hop hd hs =>
    have hshape : ∀ op ∈ [Opcode.load, .store], op.shape = .pair := by decide
    exact .inr ⟨hshape _ hop, _, _, rfl, hd.isRegister.isSource, hs.isRegister.isSource⟩
  | combine hop hd hs =>
    have hshape : ∀ op ∈ [Opcode.add, .sub, .mul, .div, .and, .or, .xor, .shl, .shr, .cmp],
        op.shape = .pair := by decide
    exact .inr ⟨hshape _ hop, _, _, rfl, hd.isRegister.isSource, hs⟩

theorem encodeLine_text_of_wellFormed (hexact : ∀ o ∈ instr.operands, o.IsExact)
    (h : instr.WellFormed p) : encodeLine c i u number instr.text = .ok instr := by
  refine encodeLine_eq_ok_iff.2 ⟨_, _, Instruction.tokens_text hexact,
    Opcode.ofMnemonic?_mnemonic _, ?_⟩
  rcases exists_of_wellFormed hexact h with ⟨hshape, hops⟩ | ⟨hshape, dest, src, hops, hdest, hsrc⟩
  · simp only [encodeOperands, hshape, hops, List.map_nil]
  · obtain ⟨op, ops⟩ := instr
    obtain rfl : ops = [dest, src] := hops
    have hpair : encodePair op dest.text src.text = .ok [dest, src] := by
      refine (encodePair_eq_ok_iff hshape).2 ⟨dest, src, ?_, ?_, rfl, h⟩
      · exact Operand.read_text (hexact dest (by simp)) hdest
      · exact Operand.read_text (hexact src (by simp)) hsrc
    have hshape : op.shape = .pair := hshape
    simpa only [encodeOperands, hshape, List.map_cons, List.map_nil] using hpair

/-- Registers and integers are nothing that a program could lack. -/
theorem inRange_of_isExact {o : Operand} (h : o.IsExact) : Link.inRange p o = true := by
  cases o with
  | register | syscallRegister | immediate => rfl
  | float | target | string => exact h.elim

end Encoding

open Encoding

variable {files expanded : List SourceFile}

theorem getElem?_instructions_of_link {p : Program} (h : link files = .ok p) {pc : Nat}
    {line : Nat × CodeLine} (hline : (linkedLines files)[pc]? = some line) {instr : Instruction}
    (hencode : ∀ c i u, encodeLine c i u line.2.number line.2.code = .ok instr) :
    p.instructions[pc]? = some instr := by
  obtain ⟨units, code, hunits, hcode, rfl, -⟩ := eq_program_of_link h
  have hall := (CompilationUnit.collects_of_collectAll hunits).encodes hcode
  have hpc : pc < code.length := hall.length_eq ▸ (List.getElem?_eq_some_iff.1 hline).1
  have hx : code[pc]? = some code[pc] := List.getElem?_eq_getElem hpc
  obtain ⟨f, u, -, -, hline'⟩ := rel_of_getElem? hall hline hx
  have hinstr : code[pc].1 = instr :=
    Except.ok.inj ((encodeLine_of_encodeCodeLine hline').symm.trans (hencode _ _ _))
  simp [Link.program, hx, hinstr]

namespace Encoding

/-- The text of an instruction without names, literals and floats is a line of source, and it is
encoded to this instruction in every unit of every collection exactly if the operands suit the
opcode. So in every compiled program the instruction stands where its text stood. -/
theorem encodeLine_text_iff (p : Program) (instr : Instruction)
    (hexact : ∀ o ∈ instr.operands, o.IsExact) :
    Line.classify instr.text = .instruction instr.text ∧
      (∀ c i u number,
        encodeLine c i u number instr.text = .ok instr ↔ instr.WellFormed p) ∧
      (instr.WellFormed p → ∀ files expanded q, expandMacros files = .ok expanded →
        compile files = .ok q → ∀ (pc : Nat) i l, (linkedLines expanded)[pc]? = some (i, l) →
          l.raw = instr.text → q.instructions[pc]? = some instr) := by
  have hclassify := Instruction.classify_text hexact
  refine ⟨hclassify, fun c i u number => ⟨fun h => ?_, ?_⟩, ?_⟩
  · exact wellFormed_of_encodeLine h fun o ho => inRange_of_isExact (hexact o ho)
  · exact encodeLine_text_of_wellFormed hexact
  · intro hwf files expanded q hexpanded hcompile pc i l hline hraw
    have hlink : link expanded = .ok q := by rwa [compile, hexpanded] at hcompile
    obtain ⟨f, -, hmem⟩ := mem_linkedLines_iff.1 (List.mem_of_getElem? hline)
    obtain ⟨-, hcode⟩ := CodeLine.exists_mem_of_mem_among hmem
    have hcode : l.code = instr.text := by
      rw [hraw, hclassify] at hcode
      exact (Line.instruction.inj hcode).symm
    refine getElem?_instructions_of_link hlink hline fun c j u => ?_
    rw [hcode]
    exact encodeLine_text_of_wellFormed hexact hwf

/-- The least integer is written with more digits than the greatest has a place for. -/
theorem encodeLine_text_mov_least :
    let instr : Instruction := ⟨.mov, [.syscallRegister 3, .immediate (-2147483648)]⟩
    instr.text = "mov S3, -2147483648".toList ∧
      ∀ c i u number, encodeLine c i u number instr.text = .ok instr := by
  intro instr
  have hexact : ∀ o ∈ instr.operands, o.IsExact := by simp [instr, Operand.IsExact]
  have hwf : instr.WellFormed {} := .move (show 3 < syscallRegisterCount by decide) trivial
  obtain ⟨-, hiff, -⟩ := encodeLine_text_iff {} instr hexact
  exact ⟨by decide +kernel, fun c i u number => (hiff c i u number).2 hwf⟩

end Encoding

end RegisterMachine
