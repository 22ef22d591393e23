import RegisterMachine.Proofs.Assembly.Agreement
import RegisterMachine.Proofs.Macro.Definition
import RegisterMachine.Proofs.Program.Operand

/-!
# How many operands are written

The second pass counts the tokens behind a mnemonic, with one exception: of a string load it reads
the first token, takes the literal that the first pass has found, and looks at nothing else on the
line. `Encoding.StringLoad` is what such a line holds, and it is all that is asked of it
(`Encoding.exists_encodeLine_of_stringLoad`); every other line has as many operands as its opcode
takes (`Encoding.writesOperands_of_encodeLine`).
-/

namespace RegisterMachine

namespace Encoding

/-- A character that stands between tokens. -/
def isSeparator (c : Char) : Bool :=
  Text.isBlank c || c == ','

/-- A line that is read as a string load: a mnemonic, white space behind it, a general register and
a literal. Any text may stand between the register and the literal, and behind the literal. -/
structure StringLoad (code : Text) where
  mnemonic : Text
  gap : Text
  token : Text
  register : UInt8
  between : Text
  literal : Text
  after : Text
  code_eq : code = mnemonic ++ gap ++ token ++ between ++ '"' :: (literal ++ '"' :: after)
  mnemonic_eq : Opcode.ofMnemonic? mnemonic = some .ldstr
  gap_blank : ∃ c ∈ gap.head?, Text.isBlank c
  gap_separator : ∀ c ∈ gap, isSeparator c
  token_read : Operand.read token = .ok (.register register)
  between_separator : ∃ c ∈ between.head?, isSeparator c
  between_quote : '"' ∉ between
  literal_quote : '"' ∉ literal

/-- Nothing but a register and a literal is written. -/
structure StringLoad.IsTidy {code : Text} (s : StringLoad code) : Prop where
  between : ∀ c ∈ s.between, isSeparator c
  after : ∀ c ∈ s.after, isSeparator c

/-- The operands that are written on a line with the given opcode. -/
inductive WritesOperands (code : Text) : Opcode → Prop
  | counted {mnemonic : Text} {args : List Text} {op : Opcode}
      (htokens : tokens code = mnemonic :: args) (hop : Opcode.ofMnemonic? mnemonic = some op)
      (hload : op ≠ .ldstr) (hcount : args.length = op.operandCount) : WritesOperands code op
  | stringLoad (s : StringLoad code) : WritesOperands code .ldstr

variable {paths : List Text} {base : Offsets} {c : Collection} {i number : Nat}
  {u : CompilationUnit} {f : SourceFile} {l : CodeLine} {raw code : Text} {op : Opcode}
  {args : List Text} {ops : List Operand}

theorem isAlpha_of_isAlpha_toLower {c : Char} (h : c.toLower.isAlpha) : c.isAlpha := by
  unfold Char.toLower at h
  split at h
  · rename_i hupper
    have hupper : c.isUpper := decide_eq_true hupper
    exact Bool.or_eq_true_iff.2 (.inl hupper)
  · exact h

theorem isAlpha_of_ofMnemonic? {mnemonic : Text} (h : Opcode.ofMnemonic? mnemonic = some op) :
    mnemonic ≠ [] ∧ ∀ c ∈ mnemonic, c.isAlpha := by
  have hfold := foldCase_of_ofMnemonic? h
  have hletters : op.mnemonic ≠ [] ∧ op.mnemonic.all Char.isAlpha := by
    cases op <;> decide
  constructor
  · rintro rfl
    exact hletters.1 hfold.symm
  · intro c hc
    have hlower : c.toLower ∈ op.mnemonic := hfold ▸ List.mem_map_of_mem hc
    exact isAlpha_of_isAlpha_toLower (List.all_eq_true.1 hletters.2 _ hlower)

theorem isSeparator_eq_false_of_isAlphanum {c : Char} (h : c.isAlphanum) :
    isSeparator c = false := by
  have hcomma : c ≠ ',' := by
    rintro rfl
    exact absurd h (by decide)
  have hblank : Text.isBlank c = false := Text.isBlank_eq_false_of_isAlphanum (by simp [h])
  simp [isSeparator, hblank, hcomma]

theorem quote_notMem_of_isAlphanum {s : Text} (h : ∀ c ∈ s, c.isAlphanum) : '"' ∉ s :=
  fun hmem => absurd (h _ hmem) (by decide)

theorem quote_notMem_of_isSeparator {s : Text} (h : ∀ c ∈ s, isSeparator c) : '"' ∉ s :=
  fun hmem => absurd (h _ hmem) (by decide)

theorem forall_head?_append {p : Char → Bool} {s t : Text} (h : ∃ c ∈ s.head?, p c) :
    ∀ c ∈ (s ++ t).head?, p c := by
  obtain ⟨c, hc, hp⟩ := h
  obtain ⟨r, rfl⟩ := List.head?_eq_some_iff.1 hc
  intro d hd
  cases hd
  exact hp

namespace StringLoad

variable (s : StringLoad code)

/-- What stands behind the register. -/
def tail : Text :=
  s.between ++ '"' :: (s.literal ++ '"' :: s.after)

theorem code_eq_append_tail : code = s.mnemonic ++ (s.gap ++ (s.token ++ s.tail)) := by
  refine s.code_eq.trans ?_
  simp only [tail, List.append_assoc]

theorem isAlphanum_mnemonic : ∀ c ∈ s.mnemonic, c.isAlphanum := by
  intro c hc
  simp [Char.isAlphanum, (isAlpha_of_ofMnemonic? s.mnemonic_eq).2 c hc]

theorem isAlphanum_token : ∀ c ∈ s.token, c.isAlphanum :=
  Operand.isAlphanum_of_read_register s.token_read

/-- The second pass reads the mnemonic and the register. -/
theorem exists_tokens : ∃ rest, tokens code = s.mnemonic :: s.token :: rest := by
  have hmnemonic : s.mnemonic ≠ [] := (isAlpha_of_ofMnemonic? s.mnemonic_eq).1
  have htoken : s.token ≠ [] := by
    intro hnil
    have hread := s.token_read
    rw [hnil] at hread
    cases hread
  have hgap : ∃ c ∈ s.gap.head?, isSeparator c := by
    obtain ⟨c, hc, hblank⟩ := s.gap_blank
    exact ⟨c, hc, by simp [isSeparator, hblank]⟩
  refine ⟨Text.words isSeparator s.tail, ?_⟩
  calc tokens code
      = Text.words isSeparator (s.mnemonic ++ (s.gap ++ (s.token ++ s.tail))) :=
        congrArg (Text.words isSeparator) s.code_eq_append_tail
    _ = s.mnemonic :: Text.words isSeparator (s.gap ++ (s.token ++ s.tail)) :=
        Text.words_append
          (fun c hc => isSeparator_eq_false_of_isAlphanum (s.isAlphanum_mnemonic c hc)) hmnemonic
          (forall_head?_append hgap)
    _ = s.mnemonic :: Text.words isSeparator (s.token ++ s.tail) := by
        rw [Text.words_append_of_forall s.gap_separator]
    _ = s.mnemonic :: s.token :: Text.words isSeparator s.tail :=
        congrArg (s.mnemonic :: ·) (Text.words_append
          (fun c hc => isSeparator_eq_false_of_isAlphanum (s.isAlphanum_token c hc)) htoken
          (forall_head?_append s.between_separator))

/-- So does the first pass read the mnemonic. -/
theorem isStringLoad (s : StringLoad code) : RegisterMachine.isStringLoad code := by
  have hwords : Text.words Text.isBlank code =
      s.mnemonic :: Text.words Text.isBlank (s.gap ++ (s.token ++ s.tail)) := by
    have hblank (c : Char) (hc : c ∈ s.mnemonic) : Text.isBlank c = false :=
      Text.isBlank_eq_false_of_isAlphanum (by simp [s.isAlphanum_mnemonic c hc])
    have hne := (isAlpha_of_ofMnemonic? s.mnemonic_eq).1
    have hwords := Text.words_append hblank hne (forall_head?_append (t := s.token ++ s.tail)
      s.gap_blank)
    exact (congrArg (Text.words Text.isBlank) s.code_eq_append_tail).trans hwords
  rw [RegisterMachine.isStringLoad, hwords]
  simp [foldCase_of_ofMnemonic? s.mnemonic_eq, Opcode.mnemonic]

/-- No quote stands in front of the literal. -/
theorem quote_notMem : '"' ∉ s.mnemonic ++ s.gap ++ s.token ++ s.between := by
  simp only [List.mem_append, not_or]
  exact ⟨⟨⟨quote_notMem_of_isAlphanum s.isAlphanum_mnemonic,
    quote_notMem_of_isSeparator s.gap_separator⟩,
    quote_notMem_of_isAlphanum s.isAlphanum_token⟩, s.between_quote⟩

theorem cut?_eq :
    Text.cut? '"' code = some (s.mnemonic ++ s.gap ++ s.token ++ s.between,
      s.literal ++ '"' :: s.after) := by
  have hcut : Text.cut? '"' ('"' :: (s.literal ++ '"' :: s.after)) =
      some ([], s.literal ++ '"' :: s.after) := by
    simp [Text.cut?]
  refine (congrArg (Text.cut? '"') s.code_eq).trans ?_
  rw [Text.cut?_append_of_notMem s.quote_notMem, hcut, Option.map_some, List.append_nil]

theorem cut?_literal :
    Text.cut? '"' (s.literal ++ '"' :: s.after) = some (s.literal, s.after) := by
  simp [Text.cut?_append_of_notMem s.literal_quote, Text.cut?]

theorem quoted?_eq : Text.quoted? code = some s.literal :=
  Text.quoted?_eq_some_iff.2 ⟨_, _, _, s.cut?_eq, s.cut?_literal⟩

end StringLoad

/-- The first pass cuts the mnemonic off at white space, and none stands in front of it. -/
theorem exists_append_of_isStringLoad (hcode : Line.classify raw = .instruction code)
    (hload : isStringLoad code) :
    ∃ mnemonic rest, code = mnemonic ++ rest ∧ Opcode.ofMnemonic? mnemonic = some .ldstr ∧
      ∀ c ∈ rest.head?, Text.isBlank c := by
  obtain ⟨mnemonic, ws, hwords, hop⟩ := exists_words_of_isStringLoad hload
  obtain ⟨before, rest, hsplit, hbefore, -, -, hrest⟩ := Text.exists_append_of_words hwords
  obtain ⟨c, s, rfl, hblank⟩ := Line.exists_cons_of_classify hcode
  cases before with
  | nil => exact ⟨mnemonic, rest, hsplit, hop, hrest⟩
  | cons d before =>
    obtain ⟨rfl, -⟩ := List.cons.inj hsplit
    rw [hbefore _ List.mem_cons_self] at hblank
    cases hblank

/-- A line that both passes read as a string load is one. -/
theorem nonempty_stringLoad {mnemonic token literal : Text} {rest : List Text} {n : UInt8}
    (hcode : Line.classify raw = .instruction code) (hload : isStringLoad code)
    (hquoted : Text.quoted? code = some literal)
    (htokens : tokens code = mnemonic :: token :: rest)
    (hread : Operand.read token = .ok (.register n)) : Nonempty (StringLoad code) := by
  obtain ⟨w, args, rfl, hop, hargs⟩ := exists_append_of_isStringLoad hcode hload
  have hw (c : Char) (hc : c ∈ w) : c.isAlphanum := by
    simp [Char.isAlphanum, (isAlpha_of_ofMnemonic? hop).2 c hc]
  -- the second pass cuts the same mnemonic off, and then the register
  have hseparator (c : Char) (hc : c ∈ args.head?) : isSeparator c := by
    simp [isSeparator, hargs c hc]
  have hwords : tokens (w ++ args) = w :: Text.words isSeparator args :=
    Text.words_append (fun c hc => isSeparator_eq_false_of_isAlphanum (hw c hc))
      (isAlpha_of_ofMnemonic? hop).1 hseparator
  obtain ⟨-, hwords⟩ := List.cons.inj (hwords.symm.trans htokens)
  obtain ⟨gap, tail, rfl, hgap, htoken, hne, htail⟩ := Text.exists_append_of_words hwords
  have hblank : ∃ c ∈ gap.head?, Text.isBlank c := by
    cases gap with
    | cons d gap => exact ⟨d, rfl, hargs d rfl⟩
    | nil =>
      obtain ⟨d, token, rfl⟩ := List.exists_cons_of_ne_nil hne
      have hd : isSeparator d := hseparator d rfl
      rw [htoken d List.mem_cons_self] at hd
      cases hd
  -- no quote stands up to here
  have hquote : '"' ∉ w ++ (gap ++ token) := by
    simp only [List.mem_append, not_or]
    exact ⟨quote_notMem_of_isAlphanum hw, quote_notMem_of_isSeparator hgap,
      quote_notMem_of_isAlphanum (Operand.isAlphanum_of_read_register hread)⟩
  rw [← List.append_assoc, Text.quoted?_append_of_notMem hquote] at hquoted
  obtain ⟨between, after, rfl, hbetween, hliteral⟩ := Text.exists_append_of_quoted? hquoted
  have hstart : ∃ c ∈ between.head?, isSeparator c := by
    cases between with
    | cons d between => exact ⟨d, rfl, htail d rfl⟩
    | nil => exact absurd (htail '"' rfl) (by decide)
  exact ⟨{ mnemonic := w, gap, token, register := n, between, literal, after
           code_eq := by simp only [List.append_assoc]
           mnemonic_eq := hop
           gap_blank := hblank
           gap_separator := hgap
           token_read := hread
           between_separator := hstart
           between_quote := hbetween
           literal_quote := hliteral }⟩

/-- Only string loads are encoded without a look at the number of their operands. -/
theorem length_of_encodeOperands (h : encodeOperands c i u number op args = .ok ops)
    (hload : op ≠ .ldstr) : args.length = op.operandCount := by
  unfold encodeOperands at h
  split at h <;> rename_i hop
  · rw [Opcode.operandCount, hop]
    rfl
  · rw [Opcode.operandCount, hop]
    rfl
  · rw [Opcode.operandCount, hop]
    rfl
  · exact absurd (Opcode.shape_eq_stringLoad_iff.1 hop) hload
  · rw [Opcode.operandCount, hop]
    rfl
  · cases h

theorem writesOperands_of_encodeLine {instr : Instruction}
    (hu : CompilationUnit.collect paths base f = .ok u) (hl : l ∈ f.codeLines)
    (h : encodeLine c i u l.number l.code = .ok instr) : WritesOperands l.code instr.opcode := by
  obtain ⟨mnemonic, args, htokens, hop, hops⟩ := encodeLine_eq_ok_iff.1 h
  by_cases hldstr : instr.opcode = .ldstr
  · obtain ⟨-, literal, -, -, hload, hliteral, -, -⟩ :=
      exists_literal_of_encodeLine hu hl h hldstr
    rw [hldstr] at hops
    obtain ⟨token, rest, n, -, -, rfl, hread, -⟩ := encodeStringLoad_eq_ok_iff.1 hops
    obtain ⟨-, hcode⟩ := CodeLine.exists_mem_of_mem_among hl
    obtain ⟨s⟩ := nonempty_stringLoad hcode hload hliteral htokens hread
    rw [hldstr]
    exact .stringLoad s
  · exact .counted htokens hop hldstr (length_of_encodeOperands hops hldstr)

/-- Whatever stands between the register and the literal and behind the literal, a string load is
encoded, and it is encoded to the same operands. -/
theorem exists_encodeLine_of_stringLoad (hu : CompilationUnit.collect paths base f = .ok u)
    (hl : l ∈ f.codeLines) (s : StringLoad l.code) :
    ∃ index, u.strings.index.lookup s.literal = some index ∧
      encodeLine c i u l.number l.code =
        .ok ⟨.ldstr, [.register s.register, .string (UInt32.ofNat index)]⟩ := by
  obtain ⟨rest, htokens⟩ := s.exists_tokens
  obtain ⟨literal, index, hraw, hindex⟩ := exists_lookup_of_isStringLoad hu hl s.isStringLoad
  obtain rfl : literal = s.literal := by
    rw [CompilationUnit.quoted?_raw_of_collect hu hl s.isStringLoad, s.quoted?_eq] at hraw
    exact (Option.some.inj hraw).symm
  have hkept : (u.stringLines.lookup l.number).bind Text.quoted? = some s.literal := by
    rw [CompilationUnit.lookup_stringLines_of_collect hu hl, if_pos s.isStringLoad]
    exact hraw
  have hops := encodeStringLoad_eq_ok_iff.2
    ⟨s.token, rest, s.register, s.literal, index, rfl, s.token_read, hkept, hindex, rfl⟩
  refine ⟨index, hindex, encodeLine_eq_ok_iff.2 ?_⟩
  exact ⟨s.mnemonic, s.token :: rest, htokens, s.mnemonic_eq, hops⟩

end Encoding

open Encoding

variable {files expanded : List SourceFile} {units : List CompilationUnit}

theorem CompilationUnit.Collects.writesOperands {paths : List Text} {base : Offsets}
    (h : Collects paths base expanded units) {line : Nat × CodeLine}
    {x : Instruction × SourceLocation} (hline : line ∈ linkedLines expanded)
    (hx : Link.Encodes (.ofUnits units) expanded line x) :
    WritesOperands line.2.code x.1.opcode := by
  obtain ⟨f, u, hf, hu, hencode⟩ := hx
  obtain ⟨f', hf', hl⟩ := mem_linkedLines_iff.1 hline
  obtain rfl := Option.some.inj (hf.symm.trans hf')
  exact writesOperands_of_encodeLine (rel_of_getElem? h.collect_eq hf hu) hl
    (encodeLine_of_encodeCodeLine hencode)

theorem CompilationUnit.Collects.exists_encodes_of_stringLoad {paths : List Text}
    (h : Collects paths {} expanded units) {line : Nat × CodeLine}
    (hline : line ∈ linkedLines expanded) (s : StringLoad line.2.code) :
    ∃ x index, Link.Encodes (.ofUnits units) expanded line x ∧
      x.1 = ⟨.ldstr, [.register s.register, .string (UInt32.ofNat index)]⟩ ∧
      (units.flatMap (·.strings.texts))[index]? = some s.literal := by
  obtain ⟨f, hf, hl⟩ := mem_linkedLines_iff.1 hline
  obtain ⟨u, hu⟩ : ∃ u, units[line.1]? = some u := by
    have hlt := (List.getElem?_eq_some_iff.1 hf).1
    rw [h.forall₂.length_eq] at hlt
    exact ⟨_, List.getElem?_eq_getElem hlt⟩
  obtain ⟨index, hindex, hencode⟩ := exists_encodeLine_of_stringLoad (c := .ofUnits units)
    (i := line.1) (rel_of_getElem? h.collect_eq hf hu) hl s
  have hliteral := h.getElem?_texts_of_lookup (List.mem_of_getElem? hu) hindex
  exact ⟨(_, ⟨u.path, f.origin line.2.number, line.2.code⟩), index,
    ⟨f, u, hf, hu, encodeCodeLine_eq_ok_iff.2 ⟨hencode, rfl⟩⟩, rfl, hliteral⟩

/-- Every line that is encoded has as many operands as its opcode takes, or is a string load; every
string load is encoded, with the register and the literal for its operands and whatever text beside
them; and in a program that is compiled, every instruction comes from such a line. -/
theorem writesOperands_of_collectAll (hexpanded : expandMacros files = .ok expanded)
    (hunits : CompilationUnit.collectAll expanded = .ok units) :
    (∀ line ∈ linkedLines expanded, ∀ x, Link.Encodes (.ofUnits units) expanded line x →
      WritesOperands line.2.code x.1.opcode) ∧
    (∀ line ∈ linkedLines expanded, ∀ s : StringLoad line.2.code,
      ∃ x index, Link.Encodes (.ofUnits units) expanded line x ∧
        x.1 = ⟨.ldstr, [.register s.register, .string (UInt32.ofNat index)]⟩ ∧
        (units.flatMap (·.strings.texts))[index]? = some s.literal) ∧
    ∀ p, compile files = .ok p →
      List.Forall₂ (fun line instr => WritesOperands line.2.code instr.opcode)
        (linkedLines expanded) p.instructions.toList := by
  have hcollects := CompilationUnit.collects_of_collectAll hunits
  refine ⟨fun line hline x hx => hcollects.writesOperands hline hx, ?_, ?_⟩
  · intro line hline s
    exact hcollects.exists_encodes_of_stringLoad hline s
  · intro p hp
    obtain ⟨expanded', hexpanded', hlink⟩ := bind_eq_ok_iff.1 hp
    obtain rfl := Except.ok.inj (hexpanded.symm.trans hexpanded')
    obtain ⟨units', code, hunits', -, hcode, rfl⟩ := link_eq_ok_iff.1 hlink
    obtain rfl := Except.ok.inj (hunits.symm.trans hunits')
    have hlines : (Link.program units code).instructions.toList = code.map (·.1) := by
      simp [Link.program]
    rw [hlines, List.forall₂_map_right_iff]
    refine (forall₂_mem (hcollects.encodes hcode)).imp ?_
    rintro line x ⟨hline, -, hx⟩
    exact hcollects.writesOperands hline hx

theorem writesOperands_of_collectAll_main :
    let files : List SourceFile :=
      [{ path := "main.s".toList, text := "ldstr R0, \"x\"\nmov R1, R0\nret\n".toList }]
    ∃ expanded units p, expandMacros files = .ok expanded ∧
      CompilationUnit.collectAll expanded = .ok units ∧ compile files = .ok p ∧
      List.Forall₂ (fun line instr => WritesOperands line.2.code instr.opcode)
        (linkedLines expanded) p.instructions.toList := by
  intro files
  have hok : (compile files).toOption.isSome := by decide +kernel
  obtain ⟨p, hp⟩ : ∃ p, compile files = .ok p := by
    cases hcompile : compile files with
    | ok p => exact ⟨p, rfl⟩
    | error e =>
      rw [hcompile] at hok
      cases hok
  obtain ⟨expanded, hexpanded, hlink⟩ := bind_eq_ok_iff.1 hp
  obtain ⟨units, -, hunits, -⟩ := link_eq_ok_iff.1 hlink
  obtain ⟨-, -, hcompiled⟩ := writesOperands_of_collectAll hexpanded hunits
  exact ⟨expanded, units, p, hexpanded, hunits, hp, hcompiled p hp⟩

/-- A third operand of a string load goes unnoticed. -/
theorem exists_not_isTidy_of_compile :
    ∃ files p expanded line instr, compile files = .ok p ∧ expandMacros files = .ok expanded ∧
      (linkedLines expanded)[0]? = some line ∧ p.instructions[0]? = some instr ∧
      instr.opcode = .ldstr ∧
      tokens line.2.code =
        ["ldstr".toList, "R0".toList, "\"x\"".toList, "R1".toList] ∧
      ∀ s : StringLoad line.2.code, ¬ s.IsTidy := by
  let files : List SourceFile :=
    [{ path := "main.s".toList, text := "ldstr R0, \"x\", R1\n".toList }]
  let code : Text := "ldstr R0, \"x\", R1".toList
  have hopcode : (compile files).map (fun p => p.instructions[0]?.map (·.opcode)) =
      .ok (some .ldstr) := by
    decide +kernel
  have hcode : (expandMacros files).map
      (fun expanded => (linkedLines expanded)[0]?.map (·.2.code)) = .ok (some code) := by
    decide +kernel
  obtain ⟨p, hp, hinstr⟩ := map_eq_ok_iff.1 hopcode
  obtain ⟨instr, hinstr, hldstr⟩ := Option.map_eq_some_iff.1 hinstr
  obtain ⟨expanded, hexpanded, hline⟩ := map_eq_ok_iff.1 hcode
  obtain ⟨line, hline, hcode⟩ := Option.map_eq_some_iff.1 hline
  refine ⟨files, p, expanded, line, instr, hp, hexpanded, hline, hinstr, hldstr, ?_⟩
  rw [hcode]
  refine ⟨by decide, fun s htidy => ?_⟩
  -- the quotes leave no choice of what stands behind the literal
  have hcut : Text.cut? '"' code = some ("ldstr R0, ".toList, "x\", R1".toList) := by decide
  have hrest : s.literal ++ '"' :: s.after = "x\", R1".toList := by
    have h := s.cut?_eq.symm.trans hcut
    exact (Prod.mk.inj (Option.some.inj h)).2
  have hafter : s.after = ", R1".toList := by
    have h := s.cut?_literal
    rw [hrest] at h
    have hcut : Text.cut? '"' "x\", R1".toList = some ("x".toList, ", R1".toList) := by decide
    exact (Prod.mk.inj (Option.some.inj (h.symm.trans hcut))).2
  have hmem : 'R' ∈ s.after := by
    rw [hafter]
    decide
  exact absurd (htidy.after 'R' hmem) (by decide)

end RegisterMachine
