import Mathlib.Data.List.Induction
import Mathlib.Data.List.Nodup
import RegisterMachine.Proofs.Assembly.Addresses
import RegisterMachine.Proofs.Text.Pieces

/-!
# Literals

A literal is read twice: the first pass takes it from the code of a line and gives it an index, the
second pass takes it again from the line as it stands, kept under its number, and looks the index
up. Both read the same text (`Line.quoted?_of_classify`), the strings of a file are its different
literals in the order of their first use (`CompilationUnit.Collects.texts_eq`), and an index leads
to the literal of its line in the strings of all files.
-/

namespace RegisterMachine

namespace Line

variable {raw code literal : Text}

theorem eq_of_ofCode_eq_instruction {s : Text} (h : ofCode s = .instruction code) : code = s := by
  unfold ofCode at h
  split at h
  · cases h
  · split at h
    · exact (Line.instruction.inj h).symm
    · split at h <;> cases h

theorem exists_append_of_classify (h : classify raw = .instruction code) :
    ∃ before after, raw = before ++ code ++ after ∧ ∀ c ∈ before, Text.isBlank c := by
  obtain ⟨before, after, hraw, hbefore, -⟩ := Text.exists_append_trim raw
  unfold classify at h
  split at h
  · cases h
  · cases h
  · rename_i c s _ hs
    -- the code is an initial part of the trimmed line
    obtain ⟨blanks, hcode, -⟩ :=
      Text.exists_append_dropEndWhile Text.isBlank (Text.stripComment (c :: s))
    obtain ⟨comment, hstrip⟩ := Text.isPrefix_stripComment (c :: s)
    have heq : code = Text.trimEnd (Text.stripComment (c :: s)) := eq_of_ofCode_eq_instruction h
    refine ⟨before, blanks ++ comment ++ after, ?_, hbefore⟩
    rw [hraw, hs, ← hstrip, hcode, heq, Text.trimEnd]
    simp only [List.append_assoc]

theorem quote_notMem_of_forall_isBlank {s : Text} (h : ∀ c ∈ s, Text.isBlank c) : '"' ∉ s :=
  fun hmem => absurd (h _ hmem) (by decide)

/-- A literal in the code of a line is the first one on the line as it stands. -/
theorem quoted?_of_classify (h : classify raw = .instruction code)
    (hliteral : Text.quoted? code = some literal) : Text.quoted? raw = some literal := by
  obtain ⟨before, after, rfl, hbefore⟩ := exists_append_of_classify h
  rw [List.append_assoc, Text.quoted?_append_of_notMem (quote_notMem_of_forall_isBlank hbefore)]
  exact Text.quoted?_append hliteral

end Line

/-- The literal of an instruction that loads one. -/
def CodeLine.literal? (l : CodeLine) : Option Text :=
  if isStringLoad l.code then Text.quoted? l.code else none

theorem CodeLine.among_append (l₁ l₂ : List (Nat × Text)) :
    among (l₁ ++ l₂) = among l₁ ++ among l₂ :=
  List.filterMap_append

/-- The literals of the instructions of a file that load one, in order. -/
def SourceFile.literals (f : SourceFile) : List Text :=
  f.codeLines.filterMap CodeLine.literal?

section Duplicates

variable {α : Type} [BEq α] [LawfulBEq α]

theorem eraseDups_concat (l : List α) (x : α) :
    (l ++ [x]).eraseDups = if x ∈ l.eraseDups then l.eraseDups else l.eraseDups ++ [x] := by
  rw [List.eraseDups_append]
  by_cases hx : x ∈ l <;> simp [List.removeAll, List.eraseDups_cons, hx]

theorem nodup_eraseDups (l : List α) : l.eraseDups.Nodup := by
  induction l using List.reverseRecOn with
  | nil => simp
  | append_singleton l x ih =>
    rw [eraseDups_concat]
    split
    · exact ih
    · rename_i hx
      simpa [List.concat_eq_append] using (List.nodup_concat _ _).2 ⟨hx, ih⟩

end Duplicates

theorem StringTable.IsIndexed.texts_intern {t : StringTable} {text : Text} (h : t.IsIndexed) :
    (t.intern text).texts = if text ∈ t.texts then t.texts else t.texts ++ [text] := by
  unfold StringTable.intern
  split
  · rename_i i hi
    have hmem : text ∈ t.texts := by
      by_contra hnone
      have hfree : (t.texts.zipIdx t.base).lookup text = none := lookup_zipIdx_eq_none_iff.2 hnone
      rw [← h, hi] at hfree
      cases hfree
    rw [if_pos hmem]
  · rename_i hnone
    rw [h, lookup_zipIdx_eq_none_iff] at hnone
    rw [if_neg hnone]

namespace CompilationUnit

variable {paths : List Text} {base : Offsets} {u u' : CompilationUnit} {number : Nat} {raw : Text}
variable {lines : List (Nat × Text)} {literals : List Text} {f : SourceFile} {l : CodeLine}

/-- What a line adds to the literals that were read before it. -/
theorem Takes.texts (h : u.Takes paths number raw u') (hu : u.strings.IsIndexed)
    (htexts : u.strings.texts = literals.eraseDups) :
    u'.strings.texts =
      (literals ++ (CodeLine.among [(number, raw)]).filterMap CodeLine.literal?).eraseDups := by
  have hnone (hcode : (Line.classify raw).code? = none) :
      literals ++ (CodeLine.among [(number, raw)]).filterMap CodeLine.literal? = literals := by
    simp [CodeLine.among, hcode]
  cases h with
  | skip h =>
    rw [hnone (by rcases h with h | h <;> rw [h] <;> rfl), htexts]
  | importOf h | function h | label h =>
    rw [hnone (by rw [h]; rfl)]
    exact htexts
  | plain h hload =>
    simpa [CodeLine.among, h, Line.code?, CodeLine.literal?, hload] using htexts
  | stringLoad h hload hquoted =>
    rw [hu.texts_intern, htexts, ← eraseDups_concat]
    simp [CodeLine.among, h, Line.code?, CodeLine.literal?, hload, hquoted]

theorem Reads.texts (h : u.Reads paths lines u') (hu : u.strings.IsIndexed)
    (htexts : u.strings.texts = literals.eraseDups) :
    u'.strings.texts =
      (literals ++ (CodeLine.among lines).filterMap CodeLine.literal?).eraseDups := by
  induction h generalizing literals with
  | nil => simpa [CodeLine.among] using htexts
  | @cons u u₁ u' number raw lines h _ ih =>
    rw [ih (h.isIndexed_strings hu) (h.texts hu htexts), List.append_assoc, ← List.filterMap_append,
      ← CodeLine.among_append, List.singleton_append]

/-- The lines that load a string are kept under their numbers. -/
theorem Takes.stringLines (h : u.Takes paths number raw u') :
    u'.stringLines = u.stringLines ++
      ((CodeLine.among [(number, raw)]).filter (isStringLoad ·.code)).map fun l =>
        (l.number, l.raw) := by
  cases h with
  | skip h => rcases h with h | h <;> simp [CodeLine.among, h, Line.code?]
  | importOf h | function h | label h => simp [CodeLine.among, h, Line.code?]
  | plain h hload | stringLoad h hload => simp [CodeLine.among, h, Line.code?, hload]

theorem Reads.stringLines (h : u.Reads paths lines u') :
    u'.stringLines = u.stringLines ++
      ((CodeLine.among lines).filter (isStringLoad ·.code)).map fun l => (l.number, l.raw) := by
  induction h with
  | nil => simp [CodeLine.among]
  | @cons u u₁ u' number raw lines h _ ih =>
    rw [ih, h.stringLines, List.append_assoc, ← List.map_append, ← List.filter_append,
      ← CodeLine.among_append, List.singleton_append]

theorem Takes.isSome_quoted? (h : u.Takes paths number raw u') {code : Text}
    (hcode : Line.classify raw = .instruction code) (hload : isStringLoad code) :
    (Text.quoted? code).isSome := by
  cases h with
  | plain h hplain =>
    rw [hcode] at h
    obtain rfl := Line.instruction.inj h
    rw [hplain] at hload
    cases hload
  | stringLoad h _ hquoted =>
    rw [hcode] at h
    obtain rfl := Line.instruction.inj h
    rw [hquoted]
    rfl
  | skip h => rcases h with h | h <;> rw [hcode] at h <;> cases h
  | importOf h | function h | label h => rw [hcode] at h; cases h

theorem texts_of_collect (h : collect paths base f = .ok u) :
    u.strings.texts = f.literals.eraseDups := by
  have htexts : (empty f.path base).strings.texts = ([] : List Text).eraseDups := rfl
  exact (reads_of_collect h).texts rfl htexts

/-- Under the number of an instruction stands its line if it loads a string, and else nothing. -/
theorem lookup_stringLines_of_collect (h : collect paths base f = .ok u) (hl : l ∈ f.codeLines) :
    u.stringLines.lookup l.number = if isStringLoad l.code then some l.raw else none := by
  have hlines : u.stringLines =
      (f.codeLines.filter (isStringLoad ·.code)).map fun l => (l.number, l.raw) :=
    (reads_of_collect h).stringLines
  have hnumbers : (f.codeLines.map (·.number)).Nodup :=
    (List.pairwise_map.2 f.pairwise_codeLines).imp Nat.ne_of_lt
  split
  · rename_i hload
    have hkeys : (u.stringLines.map Prod.fst).Nodup := by
      rw [hlines, List.map_map]
      exact hnumbers.sublist (List.filter_sublist.map _)
    rw [lookup_eq_some_iff_mem hkeys, hlines]
    exact List.mem_map.2 ⟨l, List.mem_filter.2 ⟨hl, hload⟩, rfl⟩
  · rename_i hload
    rw [List.lookup_eq_none_iff, hlines]
    intro x hx
    obtain ⟨l', hl', rfl⟩ := List.mem_map.1 hx
    obtain ⟨hl', hload'⟩ := List.mem_filter.1 hl'
    refine bne_iff_ne.2 fun hnumber => hload ?_
    rwa [List.inj_on_of_nodup_map hnumbers hl hl' hnumber]

theorem isSome_quoted?_of_collect (h : collect paths base f = .ok u) (hl : l ∈ f.codeLines)
    (hload : isStringLoad l.code) : (Text.quoted? l.code).isSome := by
  obtain ⟨hmem, hcode⟩ := CodeLine.exists_mem_of_mem_among hl
  obtain ⟨_, _, htakes⟩ := (reads_of_collect h).exists_takes hmem
  exact htakes.isSome_quoted? hcode hload

theorem quoted?_raw_of_collect (h : collect paths base f = .ok u) (hl : l ∈ f.codeLines)
    (hload : isStringLoad l.code) : Text.quoted? l.raw = Text.quoted? l.code := by
  obtain ⟨-, hcode⟩ := CodeLine.exists_mem_of_mem_among hl
  obtain ⟨literal, hliteral⟩ := Option.isSome_iff_exists.1 (isSome_quoted?_of_collect h hl hload)
  rw [hliteral, Line.quoted?_of_classify hcode hliteral]

end CompilationUnit

namespace Encoding

variable {paths : List Text} {base : Offsets} {c : Collection} {i number : Nat}
  {u : CompilationUnit} {f : SourceFile} {l : CodeLine} {code : Text} {instr : Instruction}

/-- Where no comma touches the first word, it is the mnemonic. -/
theorem exists_tokens_of_words {w : Text} {ws : List Text}
    (h : Text.words Text.isBlank code = w :: ws) (hcomma : ',' ∉ w) :
    ∃ args, tokens code = w :: args := by
  obtain ⟨-, -, -, -, hblank, -, -⟩ := Text.exists_append_of_words h
  apply Text.exists_words_of_words (q := fun c => Text.isBlank c || c == ',') _ h
  · intro c hc
    have hne : c ≠ ',' := fun heq => hcomma (heq ▸ hc)
    simp [hblank c hc, hne]
  · simp +contextual

theorem foldCase_of_ofMnemonic? {s : Text} {op : Opcode} (h : Opcode.ofMnemonic? s = some op) :
    Text.foldCase s = op.mnemonic := by
  have := List.find?_some h
  exact (beq_iff_eq.1 this).symm

/-- The first word of a string load is its mnemonic. -/
theorem exists_words_of_isStringLoad (h : isStringLoad code) :
    ∃ mnemonic ws, Text.words Text.isBlank code = mnemonic :: ws ∧
      Opcode.ofMnemonic? mnemonic = some .ldstr := by
  unfold isStringLoad at h
  split at h
  · cases h
  · rename_i mnemonic ws hwords
    have hfold : Text.foldCase mnemonic = ['l', 'd', 's', 't', 'r'] := by simpa using h
    refine ⟨mnemonic, ws, hwords, ?_⟩
    rw [Opcode.ofMnemonic?, hfold]
    decide

/-- What the first pass counts as a string load the second pass encodes as one. -/
theorem exists_tokens_of_isStringLoad (h : isStringLoad code) :
    ∃ mnemonic args, tokens code = mnemonic :: args ∧
      Opcode.ofMnemonic? mnemonic = some .ldstr := by
  obtain ⟨mnemonic, ws, hwords, hop⟩ := exists_words_of_isStringLoad h
  have hcomma : ',' ∉ mnemonic := by
    intro hmem
    have hmem' : Char.toLower ',' ∈ Text.foldCase mnemonic := List.mem_map_of_mem hmem
    rw [foldCase_of_ofMnemonic? hop] at hmem'
    exact absurd hmem' (by decide)
  obtain ⟨args, hargs⟩ := exists_tokens_of_words hwords hcomma
  exact ⟨mnemonic, args, hargs, hop⟩

theorem encodeStringLoad_of_encodeLine (h : encodeLine c i u number code = .ok instr)
    (hop : instr.opcode = .ldstr) :
    ∃ args, encodeStringLoad u number args = .ok instr.operands := by
  obtain ⟨_, args, -, -, hops⟩ := encodeLine_eq_ok_iff.1 h
  rw [hop] at hops
  exact ⟨args, hops⟩

theorem opcode_eq_ldstr_of_isStringLoad (h : encodeLine c i u number code = .ok instr)
    (hload : isStringLoad code) : instr.opcode = .ldstr := by
  obtain ⟨mnemonic, args, htokens, hop⟩ := exists_tokens_of_isStringLoad hload
  obtain ⟨mnemonic', args', htokens', hop', -⟩ := encodeLine_eq_ok_iff.1 h
  obtain ⟨rfl, -⟩ := List.cons.inj (htokens.symm.trans htokens')
  exact Option.some.inj (hop'.symm.trans hop)

/-- Both passes read the same literal on a line. -/
theorem exists_literal_of_encodeLine (hu : CompilationUnit.collect paths base f = .ok u)
    (hl : l ∈ f.codeLines) (h : encodeLine c i u l.number l.code = .ok instr)
    (hop : instr.opcode = .ldstr) :
    ∃ n literal index, (Operand.register n).IsGeneral ∧ isStringLoad l.code ∧
      Text.quoted? l.code = some literal ∧ u.strings.index.lookup literal = some index ∧
      instr.operands = [.register n, .string (UInt32.ofNat index)] := by
  obtain ⟨args, hargs⟩ := encodeStringLoad_of_encodeLine h hop
  obtain ⟨n, raw, literal, index, hn, hraw, hliteral, hindex, hops⟩ := eq_of_encodeStringLoad hargs
  rw [CompilationUnit.lookup_stringLines_of_collect hu hl] at hraw
  split at hraw
  · rename_i hload
    obtain rfl := Option.some.inj hraw
    rw [CompilationUnit.quoted?_raw_of_collect hu hl hload] at hliteral
    exact ⟨n, literal, index, hn, hload, hliteral, hindex, hops⟩
  · cases hraw

end Encoding

namespace CompilationUnit

variable {paths : List Text} {base : Offsets} {files : List SourceFile}
  {units : List CompilationUnit} {u : CompilationUnit}

theorem Collects.collect_eq (h : Collects paths base files units) :
    List.Forall₂ (fun f u => collect paths u.base f = .ok u) files units := by
  induction h with
  | nil => exact .nil
  | cons h _ ih =>
    refine .cons ?_ ih
    rwa [(isCollected_of_collect h).base]

/-- The strings of all files are the different literals of each, file by file. -/
theorem Collects.texts_eq (h : Collects paths base files units) :
    units.flatMap (·.strings.texts) = files.flatMap fun f => f.literals.eraseDups := by
  induction h with
  | nil => rfl
  | cons h _ ih => rw [List.flatMap_cons, List.flatMap_cons, texts_of_collect h, ih]

/-- The strings of a file stand behind those of the files before it. -/
theorem Collects.getElem?_texts (h : Collects paths base files units) (hu : u ∈ units) {k : Nat}
    {text : Text} (hk : u.strings.texts[k]? = some text) :
    ∃ j, u.strings.base = base.string + j ∧
      (units.flatMap (·.strings.texts))[j + k]? = some text := by
  induction h with
  | nil => cases hu
  | @cons base f fs v us h _ ih =>
    have hv := isCollected_of_collect h
    rcases List.mem_cons.1 hu with rfl | hu
    · refine ⟨0, hv.base_strings, ?_⟩
      obtain ⟨hlt, -⟩ := List.getElem?_eq_some_iff.1 hk
      rw [List.flatMap_cons, Nat.zero_add, List.getElem?_append_left hlt, hk]
    · obtain ⟨j, hbase, hj⟩ := ih hu
      refine ⟨v.strings.texts.length + j, ?_, ?_⟩
      · have hstart : v.offsetsAfter.string = base.string + v.strings.texts.length := by
          rw [offsetsAfter, hv.base]
        omega
      · rw [List.flatMap_cons, List.getElem?_append_right (by omega)]
        rw [← hj]
        congr 1
        omega

theorem Collects.getElem?_texts_of_lookup (h : Collects paths {} files units) (hu : u ∈ units)
    {text : Text} {index : Nat} (hindex : u.strings.index.lookup text = some index) :
    (units.flatMap (·.strings.texts))[index]? = some text := by
  obtain ⟨f, -, hf⟩ := exists_mem_of_forall₂ h.collect_eq hu
  have hnodup : u.strings.texts.Nodup := by
    rw [texts_of_collect hf]
    exact nodup_eraseDups _
  rw [(isCollected_of_collect hf).isIndexed_strings, lookup_zipIdx_eq_some_iff hnodup] at hindex
  obtain ⟨j, hbase, hj⟩ := h.getElem?_texts hu hindex.2
  rw [← hj]
  congr 1
  have hzero : ({} : Offsets).string = 0 := rfl
  omega

section Code

variable {code : List (Instruction × SourceLocation)} {pc : Nat} {line : Nat × CodeLine}
  {x : Instruction × SourceLocation}

theorem Collects.text_eq (h : Collects paths {} files units)
    (hcode : Link.code (.ofUnits units) files = .ok code)
    (hline : (linkedLines files)[pc]? = some line) (hx : code[pc]? = some x) :
    x.2.text = line.2.code := by
  obtain ⟨f, u, -, -, hencode⟩ := rel_of_getElem? (h.encodes hcode) hline hx
  rw [Encoding.location_of_encodeCodeLine hencode]

theorem Collects.exists_collect (h : Collects paths {} files units)
    (hcode : Link.code (.ofUnits units) files = .ok code)
    (hline : (linkedLines files)[pc]? = some line) (hx : code[pc]? = some x) :
    ∃ f u, files[line.1]? = some f ∧ units[line.1]? = some u ∧ line.2 ∈ f.codeLines ∧
      collect paths u.base f = .ok u ∧
      Encoding.encodeLine (.ofUnits units) line.1 u line.2.number line.2.code = .ok x.1 := by
  obtain ⟨f, u, hf, hu, hencode⟩ := rel_of_getElem? (h.encodes hcode) hline hx
  obtain ⟨f', hf', hl⟩ := mem_linkedLines_iff.1 (List.mem_of_getElem? hline)
  obtain rfl := Option.some.inj (hf.symm.trans hf')
  exact ⟨f, u, hf, hu, hl, rel_of_getElem? h.collect_eq hf hu,
    Encoding.encodeLine_of_encodeCodeLine hencode⟩

/-- An instruction that loads a string holds the index of the literal on its own line. -/
theorem Collects.exists_literal (h : Collects paths {} files units)
    (hcode : Link.code (.ofUnits units) files = .ok code)
    (hline : (linkedLines files)[pc]? = some line) (hx : code[pc]? = some x)
    (hop : x.1.opcode = .ldstr) :
    ∃ u n literal index, units[line.1]? = some u ∧ (Operand.register n).IsGeneral ∧
      x.1.operands = [.register n, .string (UInt32.ofNat index)] ∧ isStringLoad line.2.code ∧
      Text.quoted? line.2.code = some literal ∧ u.strings.index.lookup literal = some index ∧
      (units.flatMap (·.strings.texts))[index]? = some literal := by
  obtain ⟨f, u, -, hu, hl, hcollect, hencode⟩ := h.exists_collect hcode hline hx
  obtain ⟨n, literal, index, hn, hload, hliteral, hindex, hops⟩ :=
    Encoding.exists_literal_of_encodeLine hcollect hl hencode hop
  exact ⟨u, n, literal, index, hu, hn, hops, hload, hliteral, hindex,
    h.getElem?_texts_of_lookup (List.mem_of_getElem? hu) hindex⟩

theorem Collects.opcode_eq_ldstr_iff (h : Collects paths {} files units)
    (hcode : Link.code (.ofUnits units) files = .ok code)
    (hline : (linkedLines files)[pc]? = some line) (hx : code[pc]? = some x) :
    x.1.opcode = .ldstr ↔ isStringLoad line.2.code := by
  constructor
  · intro hop
    obtain ⟨_, _, _, _, -, -, -, hload, -⟩ := h.exists_literal hcode hline hx hop
    exact hload
  · intro hload
    obtain ⟨_, _, -, -, -, -, hencode⟩ := h.exists_collect hcode hline hx
    exact Encoding.opcode_eq_ldstr_of_isStringLoad hencode hload

end Code

end CompilationUnit

end RegisterMachine
