import Mathlib.Data.Option.Basic
import RegisterMachine.Assembly.Encoding
import RegisterMachine.Proofs.Text.Lines
import RegisterMachine.Proofs.Text.Pieces

/-!
# Lines that open a definition

A definition may span lines, but it starts on one: at its first character that is not white space
stands the keyword, and nothing that rules a definition out follows on the same line
(`Line.OpensDefinition`). A text without such lines has no definitions (`segments_of_forall`), and
the assembler accepts no such line: it is a label with white space in its name, or an instruction
with a mnemonic that does not exist (`Line.OpensDefinition.isRefused`).
-/

namespace RegisterMachine

/-- The line may start a definition: it starts with the keyword, and behind the keyword it ends, or
continues with white space and, if there is more on the line, a name. -/
def Line.OpensDefinition (raw : Text) : Prop :=
  ∃ tail, Text.trimStart raw = MacroDef.keyword ++ tail ∧
    (∀ c ∈ tail.head?, Text.isBlank c) ∧
    ∀ c ∈ (tail.dropWhile Text.isAsciiBlank).head?, Text.isIdentStart c

namespace Text

variable {c : Char} {s t a : Text} {p : Char → Bool}

theorem isBlank_of_isAsciiBlank (h : isAsciiBlank c) : isBlank c := by
  simp only [isAsciiBlank, Bool.or_eq_true, beq_iff_eq] at h
  rcases h with (((rfl | rfl) | rfl) | rfl) | rfl <;> decide

theorem dropWhile_append_of_ne_nil (h : s.dropWhile p ≠ []) :
    (s ++ t).dropWhile p = s.dropWhile p ++ t := by
  rw [List.dropWhile_append, if_neg]
  simpa using h

theorem eq_append_of_dropLast? (h : dropLast? c s = some a) : s = a ++ [c] := by
  induction s generalizing a with
  | nil => cases h
  | cons d s ih =>
    cases s with
    | nil =>
      unfold dropLast? at h
      split at h <;> cases h
      simp_all
    | cons e s =>
      obtain ⟨b, hb, rfl⟩ := Option.map_eq_some_iff.1 h
      rw [ih hb, List.cons_append]

/-- An identifier: letters, digits and underscores, the first of which is no digit. -/
def IsIdent : Text → Prop
  | [] => False
  | c :: s => isIdentStart c ∧ s.all isIdentRest

instance instDecidableIsIdent : (s : Text) → Decidable (IsIdent s)
  | [] => .isFalse id
  | _ :: _ => inferInstanceAs (Decidable (_ ∧ _))

theorem isIdentRest_of_isIdentStart (h : isIdentStart c) : isIdentRest c := by
  simp only [isIdentStart, Bool.or_eq_true] at h
  rcases h with h | h <;> simp [isIdentRest, Char.isAlphanum, h]

theorem isBlank_eq_false_of_isIdentRest (h : isIdentRest c) : isBlank c = false := by
  apply isBlank_eq_false_of_isAlphanum
  rw [isIdentRest] at h
  rw [h, Bool.true_or]

theorem IsIdent.isIdentRest (h : IsIdent s) : ∀ c ∈ s, isIdentRest c := by
  cases s with
  | nil => exact h.elim
  | cons c s =>
    exact List.forall_mem_cons.2 ⟨isIdentRest_of_isIdentStart h.1, List.all_eq_true.1 h.2⟩

theorem IsIdent.ne_nil (h : IsIdent s) : s ≠ [] := by
  rintro rfl
  exact h

/-- An identifier is read up to a character that cannot be part of one. -/
theorem IsIdent.ident?_append_cons (h : IsIdent s) (hc : Text.isIdentRest c = false) (t : Text) :
    ident? (s ++ c :: t) = some (s, c :: t) := by
  cases s with
  | nil => exact h.elim
  | cons d s =>
    obtain ⟨hd, hs⟩ := h
    have hs := List.all_eq_true.1 hs
    have hc := Bool.eq_false_iff.1 hc
    rw [List.cons_append, ident?, if_pos hd, List.takeWhile_append_of_pos hs,
      List.dropWhile_append_of_pos hs, List.takeWhile_cons_of_neg hc, List.dropWhile_cons_of_neg hc,
      List.append_nil]

theorem IsIdent.trim (h : IsIdent s) : Text.trim s = s := by
  have hblank (c : Char) (hc : c ∈ s) := isBlank_eq_false_of_isIdentRest (h.isIdentRest c hc)
  exact trim_eq_self (fun c hc => hblank c (List.mem_of_mem_head? hc))
    fun c hc => hblank c (List.mem_of_getLast? hc)

/-- Behind white space a text goes on in one of its lines. -/
theorem exists_line_of_trimStart (h : trimStart s ≠ []) :
    ∃ l ∈ lines s, ∃ rest, trimStart s = trimStart l ++ rest ∧
      ∀ c ∈ rest.head?, c = '\n' ∨ c = '\r' := by
  induction s using WellFounded.induction (measure List.length).wf with
  | _ s ih =>
    have hs : s ≠ [] := by
      rintro rfl
      exact h rfl
    obtain ⟨l, ending, heq, hlines, -, hending⟩ := exists_append_cutLine hs
    by_cases hl : trimStart l = []
    · -- a blank line is skipped with its end
      have hblank : ∀ c ∈ l ++ ending, isBlank c := by
        intro c hc
        rcases List.mem_append.1 hc with hc | hc
        · exact List.dropWhile_eq_nil_iff.1 hl c hc
        · rcases hending with rfl | rfl | ⟨rfl, -⟩
          · exact List.mem_singleton.1 hc ▸ by decide
          · have hc' : c = '\r' ∨ c = '\n' := by simpa using hc
            rcases hc' with rfl | rfl <;> decide
          · cases hc
      have hrest : trimStart s = trimStart (cutLine s).2 := by
        have hdrop : (l ++ ending).dropWhile isBlank = [] := List.dropWhile_eq_nil_iff.2 hblank
        calc trimStart s = trimStart (l ++ ending ++ (cutLine s).2) := congrArg trimStart heq
          _ = trimStart (cutLine s).2 := by
            rw [trimStart, List.dropWhile_append, hdrop]
            rfl
      rw [hrest] at h ⊢
      obtain ⟨m, hm, rest, hmrest⟩ := ih _ (length_cutLine_lt hs) h
      exact ⟨m, hlines ▸ List.mem_cons_of_mem _ hm, rest, hmrest⟩
    · refine ⟨l, hlines ▸ List.mem_cons_self, ending ++ (cutLine s).2, ?_, ?_⟩
      · rw [List.append_assoc] at heq
        exact (congrArg trimStart heq).trans (dropWhile_append_of_ne_nil hl)
      · rcases hending with rfl | rfl | ⟨rfl, hnil⟩
        · simp
        · simp
        · simp [hnil]

end Text

namespace MacroDef

variable {s : Text}

theorem exists_of_header?_eq_some {x : Text × Text × Text} (h : header? s = some x) :
    (∃ c rest, s = c :: rest ∧ Text.isAsciiBlank c) ∧
      ∃ d rest, s.dropWhile Text.isAsciiBlank = d :: rest ∧ Text.isIdentStart d := by
  unfold header? at h
  split at h
  · rename_i c rest
    obtain ⟨_, hc, h⟩ := Option.bind_eq_some_iff.1 h
    obtain ⟨⟨name, t⟩, hident, -⟩ := Option.bind_eq_some_iff.1 h
    refine ⟨⟨c, rest, rfl, ?_⟩, ?_⟩
    · exact (Option.guard_eq_some' _).1 hc
    · unfold Text.ident? at hident
      split at hident
      · cases hident
      · rename_i d r hdrop
        split at hident
        · rename_i hd
          exact ⟨d, r, hdrop, hd⟩
        · cases hident
  · cases h

theorem isBlank_eq_false_of_mem_keyword : ∀ c ∈ keyword, Text.isBlank c = false := by
  have hall : keyword.all fun c => !Text.isBlank c := by decide
  intro c hc
  simpa using List.all_eq_true.1 hall c hc

/-- White space does not cut the keyword. -/
theorem exists_of_append_eq_keyword_append {l rest r : Text}
    (hrest : ∀ c ∈ rest.head?, Text.isBlank c) (h : l ++ rest = keyword ++ r) :
    ∃ tail, l = keyword ++ tail ∧ r = tail ++ rest := by
  rcases List.append_eq_append_iff.1 h with ⟨as, hkey, has⟩ | h
  · cases as with
    | nil => exact ⟨[], by simpa using hkey.symm, by simpa using has.symm⟩
    | cons c as =>
      have hfalse := isBlank_eq_false_of_mem_keyword c (by rw [hkey]; simp)
      rw [hrest c (by rw [has]; rfl)] at hfalse
      cases hfalse
  · exact h

/-- Where more than white space is found, the line that it starts on opens a definition. -/
theorem opensDefinition_of_find {l rest : Text} (hhead : ∀ c ∈ rest.head?, c = '\n' ∨ c = '\r')
    (h : find (Text.trimStart l ++ rest) ≠ .nothing) : Line.OpensDefinition l := by
  obtain ⟨r, x, hr, hx⟩ : ∃ r x, Text.trimStart l ++ rest = keyword ++ r ∧ header? r = some x := by
    unfold find at h
    split at h
    · exact absurd rfl h
    · rename_i hbind
      obtain ⟨r, hr, hx⟩ := Option.bind_eq_some_iff.1 hbind
      exact ⟨r, _, Text.dropPrefix?_eq_some_iff.1 hr, hx⟩
  have hblank : ∀ c ∈ rest.head?, Text.isBlank c := by
    intro c hc
    rcases hhead c hc with rfl | rfl <;> decide
  obtain ⟨tail, hl', rfl⟩ := exists_of_append_eq_keyword_append hblank hr
  obtain ⟨⟨c, r, hc, hblank⟩, d, r', hd, hstart⟩ := exists_of_header?_eq_some hx
  refine ⟨tail, hl', ?_, ?_⟩
  · intro c' hc'
    cases tail with
    | nil => cases hc'
    | cons e tail =>
      obtain ⟨rfl, -⟩ := List.cons.inj hc
      obtain rfl := Option.some.inj hc'
      exact Text.isBlank_of_isAsciiBlank hblank
  · intro d' hd'
    have htail : tail.dropWhile Text.isAsciiBlank ≠ [] := by
      intro hnil
      rw [hnil] at hd'
      cases hd'
    rw [Text.dropWhile_append_of_ne_nil htail] at hd
    obtain ⟨t, ht⟩ := List.head?_eq_some_iff.1 hd'
    rw [ht] at hd
    obtain ⟨rfl, -⟩ := List.cons.inj hd
    exact hstart

theorem exists_opensDefinition (h : find (Text.trimStart s) ≠ .nothing) :
    ∃ l ∈ Text.lines s, Line.OpensDefinition l := by
  have hne : Text.trimStart s ≠ [] := by
    intro hnil
    rw [hnil] at h
    exact h rfl
  obtain ⟨l, hl, rest, hrest, hhead⟩ := Text.exists_line_of_trimStart hne
  exact ⟨l, hl, opensDefinition_of_find hhead (hrest ▸ h)⟩

theorem find_eq_nothing_of_forall (h : ∀ l ∈ Text.lines s, ¬ Line.OpensDefinition l) :
    find (Text.trimStart s) = .nothing := by
  by_contra hne
  obtain ⟨l, hl, hopens⟩ := exists_opensDefinition hne
  exact h l hl hopens

end MacroDef

/-- A text whose lines open no definition has none. -/
theorem segments_of_forall (file : Text) {s : Text}
    (h : ∀ l ∈ Text.lines s, ¬ Line.OpensDefinition l) :
    ∃ segs, segments file s = .ok segs ∧ segs.filterMap Segment.definition? = [] ∧
      segs.flatMap Segment.blanked = s := by
  fun_induction segments file s with
  | case1 => exact ⟨[], rfl, rfl, rfl⟩
  | case2 s _ code _ _ _ _ hf =>
    rw [MacroDef.find_eq_nothing_of_forall h] at hf
    cases hf
  | case3 s _ code _ hf =>
    rw [MacroDef.find_eq_nothing_of_forall h] at hf
    cases hf
  | case4 s hs code hf ih =>
    obtain ⟨first, _, -, hlines, -⟩ := Text.exists_append_cutLine hs
    have hrest : ∀ l ∈ Text.lines (Text.cutLine s).2, ¬ Line.OpensDefinition l :=
      fun l hl => h l (hlines ▸ List.mem_cons_of_mem _ hl)
    obtain ⟨segs, hsegs, hnone, hblanked⟩ := ih hrest
    refine ⟨.text (Text.cutLine s).1 :: segs, ?_, hnone, ?_⟩
    · rw [hsegs]
      rfl
    · rw [List.flatMap_cons, hblanked]
      exact Text.append_cutLine s

namespace Line

open MacroDef (keyword)

variable {raw s t : Text}

/-- The assembler refuses the line: it declares a label with a name that is none, or its mnemonic is
the keyword. -/
def IsRefused (raw : Text) : Prop :=
  (∃ name, classify raw = .label name ∧ isSymbolName name = false) ∨
    ∃ code args, classify raw = .instruction code ∧ Encoding.tokens code = keyword :: args

theorem not_isSeparator_of_mem_keyword :
    ∀ c ∈ keyword, (Text.isBlank c || c == ',') = false := by
  have hall : keyword.all fun c => !(Text.isBlank c || c == ',') := by decide
  intro c hc
  simpa using List.all_eq_true.1 hall c hc

theorem trimEnd_keyword_append : Text.trimEnd (keyword ++ t) = keyword ++ Text.trimEnd t := by
  have hblank := MacroDef.isBlank_eq_false_of_mem_keyword
  generalize keyword = w at hblank ⊢
  induction w with
  | nil => rfl
  | cons c w ih =>
    obtain ⟨hc, hw⟩ := List.forall_mem_cons.1 hblank
    rw [List.cons_append, Text.trimEnd, Text.dropEndWhile_cons_of_neg hc]
    exact congrArg (c :: ·) (ih hw)

theorem stripComment_keyword_append :
    Text.stripComment (keyword ++ t) = keyword ++ Text.stripComment t := by
  simp [keyword, Text.stripComment, Text.stripComment.go]

/-- What is left of such a line starts with the keyword and goes on as the line does. -/
theorem OpensDefinition.exists_ofCode (h : OpensDefinition raw) :
    ∃ tail rest, classify raw = ofCode (keyword ++ tail) ∧
      (∀ c ∈ (tail ++ rest).head?, Text.isBlank c) ∧
      ∀ c ∈ ((tail ++ rest).dropWhile Text.isAsciiBlank).head?, Text.isIdentStart c := by
  obtain ⟨tail, htrim, hblank, hstart⟩ := h
  have hraw : Text.trim raw = keyword ++ Text.trimEnd tail := by
    rw [Text.trim, htrim, trimEnd_keyword_append]
  obtain ⟨blanks, htail, -⟩ := Text.exists_append_dropEndWhile Text.isBlank tail
  obtain ⟨comment, hcode⟩ := Text.isPrefix_stripComment (Text.trimEnd tail)
  obtain ⟨blanks', hstrip, -⟩ :=
    Text.exists_append_dropEndWhile Text.isBlank (Text.stripComment (Text.trimEnd tail))
  refine ⟨Text.trimEnd (Text.stripComment (Text.trimEnd tail)), blanks' ++ comment ++ blanks, ?_,
    ?_⟩
  · have hclassify : classify raw =
        ofCode (Text.trimEnd (Text.stripComment (keyword ++ Text.trimEnd tail))) := by
      unfold classify
      rw [hraw]
      rfl
    rw [hclassify, stripComment_keyword_append, trimEnd_keyword_append]
  · have heq : Text.trimEnd (Text.stripComment (Text.trimEnd tail)) ++
        (blanks' ++ comment ++ blanks) = tail := by
      rw [List.append_assoc, ← List.append_assoc, Text.trimEnd, ← hstrip, ← List.append_assoc,
        hcode]
      exact htail.symm
    rw [heq]
    exact ⟨hblank, hstart⟩

theorem isBlank_of_head? {tail rest : Text} (h : ∀ c ∈ (tail ++ rest).head?, Text.isBlank c) :
    ∀ c ∈ tail.head?, Text.isBlank c := by
  intro c hc
  obtain ⟨t, rfl⟩ := List.head?_eq_some_iff.1 hc
  exact h c rfl

theorem isBlank_eq_false_of_isSymbolName {name : Text} (h : isSymbolName name) :
    ∀ c ∈ name, Text.isBlank c = false := by
  cases name with
  | nil => simp
  | cons d name =>
    simp only [isSymbolName, Bool.and_eq_true, Bool.or_eq_true, List.all_eq_true] at h
    obtain ⟨hd, hname⟩ := h
    refine List.forall_mem_cons.2 ⟨?_, fun c hc => ?_⟩
    · apply Text.isBlank_eq_false_of_isAlphanum
      rcases hd with (hd | hd) | hd <;> simp [Char.isAlphanum, hd]
    · apply Text.isBlank_eq_false_of_isAlphanum
      simpa only [Bool.or_eq_true] using hname c hc

/-- No name stands between white space and a colon. -/
theorem exists_head?_of_forall_isBlank {name rest : Text} (h : ∀ c ∈ name, Text.isBlank c) :
    ∃ c, ((name ++ ':' :: rest).dropWhile Text.isAsciiBlank).head? = some c ∧
      Text.isIdentStart c = false := by
  induction name with
  | nil => exact ⟨':', rfl, by decide⟩
  | cons d name ih =>
    obtain ⟨hd, hname⟩ := List.forall_mem_cons.1 h
    cases hascii : Text.isAsciiBlank d with
    | true =>
      rw [List.cons_append, List.dropWhile_cons_of_pos hascii]
      exact ih hname
    | false =>
      rw [List.cons_append, List.dropWhile_cons_of_neg (by simp [hascii])]
      refine ⟨d, rfl, Bool.eq_false_iff.2 fun hstart => ?_⟩
      have hd' : Text.isBlank d = false := by
        apply Text.isBlank_eq_false_of_isAlphanum
        simp only [Text.isIdentStart, Bool.or_eq_true] at hstart
        rcases hstart with hstart | hstart <;> simp [Char.isAlphanum, hstart]
      rw [hd] at hd'
      cases hd'

/-- The assembler refuses a line that opens a definition. -/
theorem OpensDefinition.isRefused (h : OpensDefinition raw) : IsRefused raw := by
  obtain ⟨tail, rest, hraw, hblank, hstart⟩ := h.exists_ofCode
  rw [IsRefused, hraw]
  unfold ofCode
  have himport : afterKeyword? importKeyword (keyword ++ tail) = none := rfl
  rw [himport]
  dsimp only
  cases hcolon : Text.dropLast? ':' (keyword ++ tail) with
  | none =>
    have htokens : Encoding.tokens (keyword ++ tail) = keyword :: Encoding.tokens tail := by
      refine Text.words_append not_isSeparator_of_mem_keyword (by decide) fun c hc => ?_
      rw [isBlank_of_head? hblank c hc, Bool.true_or]
    exact .inr ⟨_, _, rfl, htokens⟩
  | some decl =>
    have hdecl := Text.eq_append_of_dropLast? hcolon
    obtain ⟨name, rfl, rfl⟩ : ∃ name, tail = name ++ [':'] ∧ decl = keyword ++ name := by
      rcases List.eq_nil_or_concat tail with rfl | ⟨name, c, rfl⟩
      · -- the keyword ends with another letter
        have hlast := congrArg List.getLast? hdecl
        simp [keyword] at hlast
      · rw [List.concat_eq_append, ← List.append_assoc] at hdecl
        obtain ⟨hname, hc⟩ := List.append_inj' hdecl rfl
        obtain rfl := List.singleton_inj.1 hc
        exact ⟨name, List.concat_eq_append, hname.symm⟩
    have hfunction : afterKeyword? functionKeyword (keyword ++ name) = none := rfl
    dsimp only
    rw [hfunction]
    refine .inl ⟨_, rfl, ?_⟩
    have htrim : Text.trim (keyword ++ name) = keyword ++ Text.trimEnd name :=
      trimEnd_keyword_append
    rw [htrim]
    refine Bool.eq_false_iff.2 fun hsymbol => ?_
    have hnonblank := isBlank_eq_false_of_isSymbolName hsymbol
    obtain ⟨after, hname, hafter⟩ := Text.exists_append_dropEndWhile Text.isBlank name
    cases hend : Text.trimEnd name with
    | nil =>
      -- all that stands in front of the colon is white space
      rw [Text.trimEnd] at hend
      rw [hend, List.nil_append] at hname
      obtain ⟨c, hc, hident⟩ := exists_head?_of_forall_isBlank (hname ▸ hafter)
      have := hstart c (by simpa using hc)
      rw [hident] at this
      cases this
    | cons c s =>
      rw [Text.trimEnd] at hend
      have hc := hblank c (by rw [hname, hend]; rfl)
      have := hnonblank c (by simp [Text.trimEnd, hend])
      rw [hc] at this
      cases this

end Line

end RegisterMachine
