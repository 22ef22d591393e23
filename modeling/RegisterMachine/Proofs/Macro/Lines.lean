import RegisterMachine.Macro.Expand
import RegisterMachine.Proofs.Result
import RegisterMachine.Proofs.Text.Lines
import RegisterMachine.Proofs.Text.Pieces

/-!
# Lines that calls stand for

The lines of a body are lines of a text, and an argument is part of the line that holds the call. So
no call brings in a line feed (`MacroTable.newline_notMem_of_expandLine`): what a line stands for is
cut into the same lines again when the expanded file is read.
-/

namespace RegisterMachine

namespace Text

variable {s a : Text} {c : Char}

theorem trim_subset (s : Text) : trim s ⊆ s := by
  obtain ⟨before, after, hs, -, -⟩ := exists_append_trim s
  intro c hc
  rw [hs]
  simp [hc]

theorem subset_of_mem_consHead {ls : List Text} (h : a ∈ consHead c ls) (hls : ∀ l ∈ ls, l ⊆ s) :
    a ⊆ c :: s := by
  cases ls with
  | nil =>
    obtain rfl := List.mem_singleton.1 h
    simp
  | cons l ls =>
    obtain ⟨hl, hls⟩ := List.forall_mem_cons.1 hls
    rcases List.mem_cons.1 h with rfl | h
    · exact List.cons_subset_cons c hl
    · exact List.Subset.trans (hls a h) (List.subset_cons_self c s)

end Text

namespace MacroCall

variable {s a line name args : Text}

theorem closing?_subset {depth : Nat} {inLiteral : Bool} (h : closing? depth inLiteral s = some a) :
    a ⊆ s := by
  induction s generalizing depth inLiteral a with
  | nil => cases h
  | cons c s ih =>
    have more {depth : Nat} {inLiteral : Bool}
        (h : (closing? depth inLiteral s).map (c :: ·) = some a) : a ⊆ c :: s := by
      obtain ⟨b, hb, rfl⟩ := Option.map_eq_some_iff.1 h
      exact List.cons_subset_cons c (ih hb)
    unfold closing? at h
    dsimp only at h
    split at h
    · exact more h
    split at h
    · exact more h
    split at h
    · exact more h
    split at h
    · split at h
      · split at h <;> cases h
        simp
      · exact more h
    · exact more h

theorem pieces_subset {depth : Int} {inLiteral : Bool} (h : a ∈ pieces depth inLiteral s) :
    a ⊆ s := by
  induction s generalizing depth inLiteral a with
  | nil =>
    obtain rfl := List.mem_singleton.1 h
    simp
  | cons c s ih =>
    have more {depth : Int} {inLiteral : Bool}
        (h : a ∈ Text.consHead c (pieces depth inLiteral s)) : a ⊆ c :: s :=
      Text.subset_of_mem_consHead h fun l hl => ih hl
    unfold pieces at h
    split at h
    · exact more h
    split at h
    · exact more h
    split at h
    · exact more h
    split at h
    · exact more h
    split at h
    · rcases List.mem_cons.1 h with rfl | h
      · simp
      · exact List.Subset.trans (ih h) (List.subset_cons_self c s)
    · exact more h

theorem arguments_subset (h : a ∈ arguments args) : a ⊆ args := by
  unfold arguments at h
  split at h
  · cases h
  · obtain ⟨b, hb, rfl⟩ := List.mem_map.1 h
    exact List.Subset.trans (Text.trim_subset b) (pieces_subset hb)

theorem parse?_subset (h : parse? line = some (name, args)) : args ⊆ line := by
  obtain ⟨⟨ident, s⟩, hident, h⟩ := Option.bind_eq_some_iff.1 h
  dsimp only at h
  split at h
  · rename_i rest hrest
    obtain ⟨a, ha, h⟩ := Option.bind_eq_some_iff.1 h
    obtain ⟨rfl, rfl⟩ := Prod.mk.inj (Option.some.inj h)
    calc a ⊆ rest := closing?_subset ha
      _ ⊆ s.dropWhile Text.isAsciiBlank := hrest ▸ List.subset_cons_self _ _
      _ ⊆ s := (List.dropWhile_suffix _).subset
      _ ⊆ Text.trim (Text.stripComment line) := (Text.isSuffix_of_ident?_eq_some hident).subset
      _ ⊆ Text.stripComment line := Text.trim_subset _
      _ ⊆ line := (Text.isPrefix_stripComment line).subset
  · cases h

end MacroCall

namespace MacroDef

variable {bindings : List (Text × Text)} {word line : Text} {c : Char}

theorem mem_of_mem_resolve (h : c ∈ resolve bindings word) :
    c ∈ word ∨ ∃ b ∈ bindings, c ∈ b.2 := by
  cases word with
  | nil => cases h
  | cons d word =>
    rw [resolve] at h
    cases hword : bindings.lookup (d :: word) with
    | none =>
      rw [hword] at h
      exact .inl h
    | some value =>
      rw [hword] at h
      obtain ⟨before, after, hbindings, -⟩ := List.lookup_eq_some_iff.1 hword
      exact .inr ⟨(d :: word, value), by simp [hbindings], h⟩

theorem mem_of_mem_substitute_go {inLiteral : Bool} {s : Text}
    (h : c ∈ substitute.go bindings inLiteral word s) :
    c ∈ word ∨ c ∈ s ∨ ∃ b ∈ bindings, c ∈ b.2 := by
  induction s generalizing inLiteral word with
  | nil =>
    rcases mem_of_mem_resolve h with h | h
    · exact .inl (List.mem_reverse.1 h)
    · exact .inr (.inr h)
  | cons d s ih =>
    have next {inLiteral : Bool} (h : c ∈ d :: substitute.go bindings inLiteral [] s) :
        c ∈ d :: s ∨ ∃ b ∈ bindings, c ∈ b.2 := by
      rcases List.mem_cons.1 h with rfl | h
      · exact .inl List.mem_cons_self
      · rcases ih h with h | h | h
        · cases h
        · exact .inl (List.mem_cons_of_mem d h)
        · exact .inr h
    unfold substitute.go at h
    split at h
    · exact .inr (next h)
    split at h
    · rcases ih h with h | h | h
      · rcases List.mem_cons.1 h with rfl | h
        · exact .inr (.inl List.mem_cons_self)
        · exact .inl h
      · exact .inr (.inl (List.mem_cons_of_mem d h))
      · exact .inr (.inr h)
    · rcases List.mem_append.1 h with h | h
      · rcases mem_of_mem_resolve h with h | h
        · exact .inl (List.mem_reverse.1 h)
        · exact .inr (.inr h)
      · exact .inr (next h)

theorem mem_of_mem_substitute (h : c ∈ substitute bindings line) :
    c ∈ line ∨ ∃ b ∈ bindings, c ∈ b.2 := by
  simpa using mem_of_mem_substitute_go h

theorem newline_notMem_of_mem_body {file name params body l : Text}
    (h : l ∈ (ofSource file name params body).body) : '\n' ∉ l := by
  obtain ⟨hl, -⟩ := List.mem_filter.1 h
  obtain ⟨raw, hraw, rfl⟩ := List.mem_map.1 hl
  intro hmem
  exact Text.newline_notMem_of_mem_lines hraw (Text.trim_subset raw hmem)

end MacroDef

theorem newline_notMem_of_segments {file s : Text} {segs : List Segment}
    (h : segments file s = .ok segs) :
    ∀ d ∈ segs.filterMap Segment.definition?, ∀ l ∈ d.body, '\n' ∉ l := by
  fun_induction segments file s generalizing segs with
  | case1 =>
    obtain rfl := Except.ok.inj h
    simp
  | case2 s _ code name params body rest hf =>
    rename_i ih
    obtain ⟨later, hlater, h⟩ := bind_eq_ok_iff.1 h
    obtain rfl := pure_eq_ok_iff.1 h
    intro d hd
    rcases List.mem_cons.1 hd with rfl | hd
    · intro l hl
      exact MacroDef.newline_notMem_of_mem_body hl
    · exact ih hlater d hd
  | case3 => cases h
  | case4 s _ _ hf =>
    rename_i ih
    obtain ⟨later, hlater, h⟩ := bind_eq_ok_iff.1 h
    obtain rfl := pure_eq_ok_iff.1 h
    intro d hd
    exact ih hlater d hd

namespace MacroTable

variable {table : MacroTable} {files : List SourceFile} {d : MacroDef} {args : List Text}
  {line : Text} {ls : List Text}

theorem segmentsOf_eq_ok_iff {f : SourceFile} {segs : List Segment} :
    segmentsOf f = .ok segs ↔ segments f.path f.text = .ok segs := by
  unfold segmentsOf
  split <;> simp_all

theorem eq_of_insert {table' : MacroTable} (h : table.insert d = .ok table') :
    table' = table ++ [d] := by
  unfold insert at h
  split at h <;> cases h
  rfl

/-- The bodies of all macros of a table are lines. -/
def HasLines (table : MacroTable) : Prop :=
  ∀ d ∈ table, ∀ l ∈ d.body, '\n' ∉ l

theorem hasLines_of_ofFiles (h : ofFiles files = .ok table) : table.HasLines := by
  apply foldlM_induction (P := HasLines) _ _ h
  · intro table f table' _ htable h
    obtain ⟨segs, hsegs, h⟩ := bind_eq_ok_iff.1 h
    have hsegs := newline_notMem_of_segments (segmentsOf_eq_ok_iff.1 hsegs)
    apply foldlM_induction (P := HasLines) _ htable h
    intro table d table' hd htable hinsert
    rw [eq_of_insert hinsert]
    intro e he
    rcases List.mem_append.1 he with he | he
    · exact htable e he
    · obtain rfl := List.mem_singleton.1 he
      exact hsegs e hd
  · intro d hd
    cases hd

/-- What a call holds: a macro of the table, and arguments that are parts of the line. -/
theorem mem_and_subset_of_call? (h : table.call? line = some (d, args)) :
    d ∈ table ∧ ∀ a ∈ args, a ⊆ line := by
  obtain ⟨⟨name, text⟩, hparse, h⟩ := Option.bind_eq_some_iff.1 h
  obtain ⟨d', hfind, h⟩ := Option.bind_eq_some_iff.1 h
  obtain ⟨rfl, rfl⟩ := Prod.mk.inj (Option.some.inj h)
  refine ⟨List.mem_of_find?_eq_some hfind, fun a ha => ?_⟩
  exact List.Subset.trans (MacroCall.arguments_subset ha) (MacroCall.parse?_subset hparse)

/-- What a line of a body stands for within the calls of `chain`, with the arguments put in. -/
def expandBodyLine (table : MacroTable) (budget : Nat) (chain : List Text) (line : Text) :
    Except CompileError.Cause (List Text) :=
  match table.call? line with
  | some (inner, args) => table.expandCall budget chain inner args
  | none => .ok [line]

/-- A call that is neither circular nor short of arguments stands for its body. -/
theorem expandCall_of_fresh {budget : Nat} {chain : List Text} (hfresh : d.name ∉ chain)
    (hargs : args.length = d.params.length) :
    table.expandCall (budget + 1) chain d args =
      ((d.body.map (MacroDef.substitute (d.params.zip args))).mapM
        (table.expandBodyLine budget (chain ++ [d.name]))).map List.flatten := by
  rw [expandCall, if_neg hfresh, if_neg (not_not_intro hargs)]
  rfl

theorem exists_parts_of_expandCall {budget : Nat} {chain : List Text}
    (h : table.expandCall (budget + 1) chain d args = .ok ls) :
    ∃ parts, ls = parts.flatten ∧
      List.Forall₂ (fun line part => table.expandBodyLine budget (chain ++ [d.name]) line = .ok part)
        (d.body.map (MacroDef.substitute (d.params.zip args))) parts := by
  by_cases hfresh : d.name ∈ chain
  · rw [expandCall, if_pos hfresh] at h
    cases h
  by_cases hargs : args.length = d.params.length
  · rw [expandCall_of_fresh hfresh hargs] at h
    obtain ⟨parts, hparts, rfl⟩ := map_eq_ok_iff.1 h
    exact ⟨parts, rfl, forall₂_of_mapM_eq_ok hparts⟩
  · rw [expandCall, if_neg hfresh, if_pos hargs] at h
    cases h

/-- Lines come from lines, at every depth of the expansion. -/
theorem newline_notMem_of_expandCall (htable : table.HasLines) {budget : Nat} {chain : List Text}
    (hd : d ∈ table) (hargs : ∀ a ∈ args, '\n' ∉ a)
    (h : table.expandCall budget chain d args = .ok ls) : ∀ l ∈ ls, '\n' ∉ l := by
  induction budget generalizing chain d args ls with
  | zero => cases h
  | succ budget ih =>
    obtain ⟨parts, rfl, hparts⟩ := exists_parts_of_expandCall h
    intro l hl
    obtain ⟨part, hpart, hl⟩ := List.mem_flatten.1 hl
    obtain ⟨line, hline, hpart⟩ := exists_mem_of_forall₂ hparts hpart
    obtain ⟨raw, hraw, rfl⟩ := List.mem_map.1 hline
    have hline : '\n' ∉ MacroDef.substitute (d.params.zip args) raw := by
      intro hmem
      rcases MacroDef.mem_of_mem_substitute hmem with hmem | ⟨⟨name, a⟩, hb, hmem⟩
      · exact htable d hd raw hraw hmem
      · exact hargs a (List.of_mem_zip hb).2 hmem
    unfold expandBodyLine at hpart
    split at hpart
    · rename_i inner innerArgs hcall
      obtain ⟨hinner, hsubset⟩ := mem_and_subset_of_call? hcall
      exact ih hinner (fun a ha hmem => hline (hsubset a ha hmem)) hpart l hl
    · cases hpart
      obtain rfl := List.mem_singleton.1 hl
      exact hline

theorem newline_notMem_of_expandLine (htable : table.HasLines) (hline : '\n' ∉ line)
    (h : table.expandLine line = .ok ls) : ∀ l ∈ ls, '\n' ∉ l := by
  unfold expandLine at h
  split at h
  · rename_i d args hcall
    obtain ⟨hd, hsubset⟩ := mem_and_subset_of_call? hcall
    exact newline_notMem_of_expandCall htable hd (fun a ha hmem => hline (hsubset a ha hmem)) h
  · cases h
    intro l hl
    obtain rfl := List.mem_singleton.1 hl
    exact hline

end MacroTable

end RegisterMachine
