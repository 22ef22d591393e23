import RegisterMachine.Proofs.Assembly.Linking
import RegisterMachine.Proofs.Assembly.Literals

/-!
# Where the two passes disagree

The first pass looks for a mnemonic in front of the first white space, the second one in front of
the first white space or comma. They read the same mnemonic unless the first word holds a comma, and
then the second pass may find a string load whose literal nobody kept, or no mnemonic at all
(`Encoding.Misread`). In no other way does it blame the first one
(`Encoding.encodeLine_eq_error_iff_misread`).
-/

namespace RegisterMachine

/-- The causes by which the second pass says that the first one has left something out: a literal
that it should have kept, or a line that it should not have counted. -/
def CompileError.Cause.IsDisagreement : CompileError.Cause → Prop
  | .missingString _ | .malformedString | .internal _ => True
  | _ => False

/-- A comma touches the mnemonic of the code, or stands in its place. -/
def HasCommaInFirstWord (code : Text) : Prop :=
  ∃ w ws, Text.words Text.isBlank code = w :: ws ∧ ',' ∈ w

/-- The code of an instruction begins with its mnemonic. -/
theorem Line.exists_cons_of_classify {raw code : Text} (h : classify raw = .instruction code) :
    ∃ c s, code = c :: s ∧ Text.isBlank c = false := by
  unfold classify at h
  split at h
  · cases h
  · cases h
  · rename_i c s hcomment htrim
    -- neither the comment nor the trimming takes the first character away
    have hblank : Text.isBlank c = false := Text.isBlank_eq_false_of_trim htrim
    have hne : c ≠ ';' := hcomment
    obtain ⟨t, ht⟩ : ∃ t, Text.stripComment (c :: s) = c :: t := by
      unfold Text.stripComment Text.stripComment.go
      split
      · exact ⟨_, rfl⟩
      · exact ⟨_, if_neg fun h => hne h.1⟩
    refine ⟨c, Text.dropEndWhile Text.isBlank t, ?_, hblank⟩
    rw [eq_of_ofCode_eq_instruction h, ht, Text.trimEnd, Text.dropEndWhile_cons_of_neg hblank]

theorem Line.exists_words_of_classify {raw code : Text} (h : classify raw = .instruction code) :
    ∃ w ws, Text.words Text.isBlank code = w :: ws := by
  obtain ⟨c, s, rfl, hblank⟩ := exists_cons_of_classify h
  exact Text.exists_words_cons _ hblank

namespace Encoding

/-- How the first pass counts an instruction in which the second one finds no mnemonic, or a string
load that the first one has not seen. -/
inductive Misread (code : Text) : CompileError.Cause → Prop
  | noMnemonic (htokens : tokens code = []) : Misread code (.internal "empty instruction line")
  | noLiteral {mnemonic token : Text} {rest : List Text} {n : UInt8}
    (htokens : tokens code = mnemonic :: token :: rest)
    (hop : Opcode.ofMnemonic? mnemonic = some .ldstr)
    (hread : Operand.read token = .ok (.register n)) (hload : isStringLoad code = false) :
    Misread code (.missingString none)

variable {paths : List Text} {base : Offsets} {c : Collection} {i number : Nat}
  {u : CompilationUnit} {f : SourceFile} {l : CodeLine} {raw code : Text}
  {cause : CompileError.Cause} {op : Opcode} {args : List Text}

theorem Misread.isDisagreement (h : Misread code cause) : cause.IsDisagreement := by
  cases h <;> trivial

theorem Misread.hasCommaInFirstWord (h : Misread code cause)
    (hcode : Line.classify raw = .instruction code) : HasCommaInFirstWord code := by
  obtain ⟨w, ws, hwords⟩ := Line.exists_words_of_classify hcode
  refine ⟨w, ws, hwords, ?_⟩
  by_contra hcomma
  obtain ⟨vs, hvs⟩ := exists_tokens_of_words hwords hcomma
  cases h with
  | noMnemonic htokens =>
    rw [htokens] at hvs
    cases hvs
  | noLiteral htokens hop _ hload =>
    rw [htokens, List.cons.injEq] at hvs
    obtain ⟨rfl, -⟩ := hvs
    rw [isStringLoad, hwords] at hload
    simp [foldCase_of_ofMnemonic? hop, Opcode.mnemonic] at hload

theorem not_isDisagreement_of_resolve {kind : SymbolKind} {name : Text}
    (h : (resolve c i kind name).map ([·]) = .error cause) : ¬ cause.IsDisagreement := by
  unfold resolve at h
  split at h <;> cases h
  exact id

theorem not_isDisagreement_of_readOperand {token : Text} (h : readOperand token = .error cause) :
    ¬ cause.IsDisagreement := by
  unfold readOperand at h
  split at h <;> cases h
  exact id

theorem not_isDisagreement_of_checkPair {destToken srcToken : Text} {dest src : Operand}
    (h : checkPair op destToken dest srcToken src = .error cause) : ¬ cause.IsDisagreement := by
  cases op with
  | load | store =>
    simp only [checkPair] at h
    split at h
    · cases h
      exact id
    · split at h <;> cases h
      exact id
  | _ =>
    simp only [checkPair] at h
    split at h <;> cases h
    exact id

theorem not_isDisagreement_of_encodePair {destToken srcToken : Text}
    (h : encodePair op destToken srcToken = .error cause) : ¬ cause.IsDisagreement := by
  rcases bind_eq_error_iff.1 h with h | ⟨dest, -, h⟩
  · exact not_isDisagreement_of_readOperand h
  rcases bind_eq_error_iff.1 h with h | ⟨src, -, h⟩
  · exact not_isDisagreement_of_readOperand h
  rcases bind_eq_error_iff.1 h with h | ⟨_, -, h⟩
  · exact not_isDisagreement_of_checkPair h
  · cases h

/-- Only string loads use what the first pass has kept of a line. -/
theorem encodeStringLoad_of_encodeOperands (h : encodeOperands c i u number op args = .error cause)
    (hcause : cause.IsDisagreement) :
    op = .ldstr ∧ encodeStringLoad u number args = .error cause := by
  unfold encodeOperands at h
  split at h <;> rename_i hop
  · cases h
  · exact absurd hcause (not_isDisagreement_of_resolve h)
  · exact absurd hcause (not_isDisagreement_of_resolve h)
  · exact ⟨Opcode.shape_eq_stringLoad_iff.1 hop, h⟩
  · exact absurd hcause (not_isDisagreement_of_encodePair h)
  · cases h
    exact hcause.elim

/-- A literal that the first pass has read on a line has an index. -/
theorem exists_lookup_of_isStringLoad (hu : CompilationUnit.collect paths base f = .ok u)
    (hl : l ∈ f.codeLines) (hload : isStringLoad l.code) :
    ∃ literal index, Text.quoted? l.raw = some literal ∧
      u.strings.index.lookup literal = some index := by
  obtain ⟨literal, hliteral⟩ := Option.isSome_iff_exists.1
    (CompilationUnit.isSome_quoted?_of_collect hu hl hload)
  have hmem : literal ∈ u.strings.texts := by
    rw [CompilationUnit.texts_of_collect hu, List.mem_eraseDups]
    exact List.mem_filterMap.2 ⟨l, hl, by simp [CodeLine.literal?, hload, hliteral]⟩
  cases hindex : u.strings.index.lookup literal with
  | some index =>
    have hraw := (CompilationUnit.quoted?_raw_of_collect hu hl hload).trans hliteral
    exact ⟨literal, index, hraw, hindex⟩
  | none =>
    rw [(CompilationUnit.isCollected_of_collect hu).isIndexed_strings,
      lookup_zipIdx_eq_none_iff] at hindex
    exact absurd hmem hindex

/-- A string load fails for want of its literal only where the first pass has not seen it. -/
theorem encodeStringLoad_eq_error_iff (hu : CompilationUnit.collect paths base f = .ok u)
    (hl : l ∈ f.codeLines) (hcause : cause.IsDisagreement) :
    encodeStringLoad u l.number args = .error cause ↔
      isStringLoad l.code = false ∧ cause = .missingString none ∧
        ∃ token rest n, args = token :: rest ∧ Operand.read token = .ok (.register n) := by
  have hlookup := CompilationUnit.lookup_stringLines_of_collect hu hl
  constructor
  · intro h
    unfold encodeStringLoad at h
    split at h
    · cases h
      exact hcause.elim
    · rename_i token rest
      split at h
      · rename_i n hread
        cases hload : isStringLoad l.code with
        | true =>
          obtain ⟨literal, index, hliteral, hindex⟩ := exists_lookup_of_isStringLoad hu hl hload
          simp [hlookup, hload, hliteral, hindex] at h
        | false =>
          simp only [hlookup, hload] at h
          exact ⟨rfl, (Except.error.inj h).symm, token, rest, n, rfl, hread⟩
      · cases h
        exact hcause.elim
  · rintro ⟨hload, rfl, token, rest, n, rfl, hread⟩
    simp [encodeStringLoad, hread, hlookup, hload]

/-- The second pass blames the first one exactly for the lines that the first one has misread. -/
theorem encodeLine_eq_error_iff_misread (hu : CompilationUnit.collect paths base f = .ok u)
    (hl : l ∈ f.codeLines) (hcause : cause.IsDisagreement) :
    encodeLine c i u l.number l.code = .error cause ↔ Misread l.code cause := by
  constructor
  · intro h
    unfold encodeLine at h
    split at h
    · rename_i htokens
      cases h
      exact .noMnemonic htokens
    · rename_i mnemonic args htokens
      split at h
      · cases h
        exact hcause.elim
      · rename_i op hop
        have h := map_eq_error_iff.1 h
        obtain ⟨rfl, h⟩ := encodeStringLoad_of_encodeOperands h hcause
        obtain ⟨hload, rfl, token, rest, n, rfl, hread⟩ :=
          (encodeStringLoad_eq_error_iff hu hl hcause).1 h
        exact .noLiteral htokens hop hread hload
  · intro h
    cases h with
    | noMnemonic htokens => simp [encodeLine, htokens]
    | @noLiteral _ token rest n htokens hop hread hload =>
      have h := (encodeStringLoad_eq_error_iff hu hl hcause).2
        ⟨hload, rfl, token, rest, n, rfl, hread⟩
      simp only [encodeLine, htokens, hop]
      exact map_eq_error_iff.2 h

end Encoding

variable {files : List SourceFile} {e : CompileError}

/-- An error of the second pass is an error of one of the lines. -/
theorem exists_mem_of_link_eq_error (h : link files = .error e) (hstage : e.stage = .encode) :
    ∃ units line f u, CompilationUnit.collectAll files = .ok units ∧ line ∈ linkedLines files ∧
      files[line.1]? = some f ∧ units[line.1]? = some u ∧
      Encoding.encodeCodeLine (.ofUnits units) line.1 u f line.2 = .error e := by
  rcases stage_or_code_of_link_eq_error h with hcollect | ⟨units, hunits, hcode⟩
  · rw [hcollect] at hstage
    cases hstage
  · have hcollects := CompilationUnit.collects_of_collectAll hunits
    have hcount := hcollects.forall₂.imp fun _ _ hu => hu.instructionCount
    obtain ⟨line, hline, f, u, hf, hu, herror⟩ := Link.exists_mem_of_code_eq_error hcount hcode
    exact ⟨units, line, f, u, hunits, hline, hf, hu, herror⟩

/-- The second pass fails at one of the lines. It blames the first pass for it exactly if that one
has misread the line, which takes a comma in the first word of the code. -/
theorem isDisagreement_iff_misread_of_compile (h : compile files = .error e)
    (hstage : e.stage = .encode) :
    ∃ expanded line f, expandMacros files = .ok expanded ∧ line ∈ linkedLines expanded ∧
      expanded[line.1]? = some f ∧ e.file = some f.path ∧
      e.line = some (f.origin line.2.number) ∧
      (e.cause.IsDisagreement ↔ Encoding.Misread line.2.code e.cause) ∧
      (e.cause.IsDisagreement → HasCommaInFirstWord line.2.code) := by
  obtain h | ⟨expanded, hexpanded, hlink⟩ := bind_eq_error_iff.1 h
  · rw [stage_of_expandMacros h] at hstage
    cases hstage
  obtain ⟨units, line, f, u, hunits, hline, hf, hu, herror⟩ :=
    exists_mem_of_link_eq_error hlink hstage
  have hcollects := CompilationUnit.collects_of_collectAll hunits
  have hcollect := rel_of_getElem? hcollects.collect_eq hf hu
  obtain ⟨f', hf', hl⟩ := mem_linkedLines_iff.1 hline
  obtain rfl := Option.some.inj (hf.symm.trans hf')
  obtain ⟨cause, hcause, rfl⟩ := Encoding.encodeCodeLine_eq_error_iff.1 herror
  have hmisread (hblames : cause.IsDisagreement) : Encoding.Misread line.2.code cause :=
    (Encoding.encodeLine_eq_error_iff_misread hcollect hl hblames).1 hcause
  have hpath : u.path = f.path := (CompilationUnit.reads_of_collect hcollect).sameOrigin.path
  refine ⟨expanded, line, f, hexpanded, hline, hf, congrArg some hpath, rfl, ?_, ?_⟩
  · exact ⟨hmisread, Encoding.Misread.isDisagreement⟩
  · intro hblames
    obtain ⟨-, hcode⟩ := CodeLine.exists_mem_of_mem_among hl
    exact (hmisread hblames).hasCommaInFirstWord hcode

theorem isDisagreement_iff_misread_of_compile_ldstr :
    let files : List SourceFile := [{ path := "main.s".toList, text := "ldstr,R0,\"x\"\n".toList }]
    let e : CompileError :=
      { stage := .encode, cause := .missingString none, file := some "main.s".toList
        line := some 1, source := some "ldstr,R0,\"x\"".toList }
    compile files = .error e ∧ e.stage = .encode ∧
      ∃ expanded line f, expandMacros files = .ok expanded ∧ line ∈ linkedLines expanded ∧
        expanded[line.1]? = some f ∧ e.file = some f.path ∧
        e.line = some (f.origin line.2.number) ∧
        (e.cause.IsDisagreement ↔ Encoding.Misread line.2.code e.cause) ∧
        (e.cause.IsDisagreement → HasCommaInFirstWord line.2.code) := by
  intro files e
  have h : compile files = .error e := by decide +kernel
  exact ⟨h, rfl, isDisagreement_iff_misread_of_compile h rfl⟩

/-- A comma behind the mnemonic hides a string load from the first pass. -/
theorem exists_isDisagreement_of_compile :
    ∃ files e, compile files = .error e ∧ e.stage = .encode ∧ e.cause.IsDisagreement := by
  let files : List SourceFile := [{ path := "main.s".toList, text := "ldstr,R0,\"x\"\n".toList }]
  let e : CompileError :=
    { stage := .encode, cause := .missingString none, file := some "main.s".toList
      line := some 1, source := some "ldstr,R0,\"x\"".toList }
  have h : compile files = .error e := by decide +kernel
  exact ⟨files, e, h, rfl, trivial⟩

/-- A line that holds nothing but a comma is an instruction for the first pass only. -/
example :
    (compile [{ path := "main.s".toList, text := ",".toList }]).mapError (·.cause) =
      .error (.internal "empty instruction line") := by
  decide +kernel

/-- Where the first pass has misread a line, nothing is compiled. -/
theorem compile_ne_ok_of_misread {expanded : List SourceFile} {line : Nat × CodeLine}
    {cause : CompileError.Cause} {p : Program} (hexpanded : expandMacros files = .ok expanded)
    (hline : line ∈ linkedLines expanded) (hmisread : Encoding.Misread line.2.code cause) :
    compile files ≠ .ok p := by
  intro h
  obtain ⟨expanded', hexpanded', hlink⟩ := bind_eq_ok_iff.1 h
  obtain rfl := Except.ok.inj (hexpanded.symm.trans hexpanded')
  obtain ⟨units, code, hunits, -, hcode, rfl⟩ := link_eq_ok_iff.1 hlink
  have hcollects := CompilationUnit.collects_of_collectAll hunits
  obtain ⟨x, -, f, u, hf, hu, hx⟩ := exists_mem_of_forall₂ (hcollects.encodes hcode).flip hline
  obtain ⟨f', hf', hl⟩ := mem_linkedLines_iff.1 hline
  obtain rfl := Option.some.inj (hf.symm.trans hf')
  have hcollect := rel_of_getElem? hcollects.collect_eq hf hu
  have herror := (Encoding.encodeLine_eq_error_iff_misread (c := .ofUnits units) (i := line.1)
    hcollect hl hmisread.isDisagreement).2 hmisread
  rw [Encoding.encodeLine_of_encodeCodeLine hx] at herror
  cases herror

end RegisterMachine
