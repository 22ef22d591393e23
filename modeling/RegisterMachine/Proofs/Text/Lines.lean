import Mathlib.Data.List.TakeWhile
import RegisterMachine.Macro.Definition

/-!
# Lines of a text

A text is cut behind its first line feed by `Text.cutLine`, and into lines without their ends by
`Text.lines`; both see the same first line (`exists_append_cutLine`). Writing lines behind one
another and cutting them apart again loses nothing but a carriage return at the end of a line
(`lines_unlines`).
-/

namespace RegisterMachine.Text

variable {c : Char} {s t l : Text}

theorem lines_cons (hc : c ≠ '\n') (h : c = '\r' → s.head? ≠ some '\n') :
    lines (c :: s) = consHead c (lines s) := by
  refine lines.eq_4 c s (fun heq => hc heq) fun rest hr hs => ?_
  exact h hr (hs ▸ rfl)

theorem cutLine_append (h : '\n' ∉ l) : cutLine (l ++ '\n' :: s) = (l ++ ['\n'], s) := by
  induction l with
  | nil => rfl
  | cons c l ih =>
    simp only [List.mem_cons, not_or] at h
    simp [cutLine, Ne.symm h.1, ih h.2]

theorem cutLine_of_notMem (h : '\n' ∉ s) : cutLine s = (s, []) := by
  induction s with
  | nil => rfl
  | cons c s ih =>
    simp only [List.mem_cons, not_or] at h
    simp [cutLine, Ne.symm h.1, ih h.2]

/-- The text is its last line, or it is cut behind a line feed. -/
theorem cutLine_cases (s : Text) :
    ('\n' ∉ s ∧ cutLine s = (s, [])) ∨
      ∃ l t, s = l ++ '\n' :: t ∧ '\n' ∉ l ∧ cutLine s = (l ++ ['\n'], t) := by
  by_cases hs : '\n' ∈ s
  · obtain ⟨l, t, rfl, hl⟩ := List.eq_append_cons_of_mem hs
    exact .inr ⟨l, t, rfl, hl, cutLine_append hl⟩
  · exact .inl ⟨hs, cutLine_of_notMem hs⟩

/-- The first line with its end, and the same line among all lines. -/
theorem exists_append_cutLine (h : s ≠ []) :
    ∃ l ending, s = l ++ ending ++ (cutLine s).2 ∧ lines s = l :: lines (cutLine s).2 ∧ '\n' ∉ l ∧
      (ending = ['\n'] ∨ ending = ['\r', '\n'] ∨ ending = [] ∧ (cutLine s).2 = []) := by
  induction s with
  | nil => exact absurd rfl h
  | cons c s ih =>
    by_cases hc : c = '\n'
    · subst hc
      exact ⟨[], ['\n'], by simp [cutLine], by simp [cutLine, lines], by simp, .inl rfl⟩
    have hcut : (cutLine (c :: s)).2 = (cutLine s).2 := by simp [cutLine, hc]
    rw [hcut]
    by_cases hreturn : c = '\r' ∧ s.head? = some '\n'
    · obtain ⟨rfl, hs⟩ := hreturn
      obtain ⟨t, rfl⟩ := List.head?_eq_some_iff.1 hs
      refine ⟨[], ['\r', '\n'], ?_, ?_, by simp, .inr (.inl rfl)⟩
      · simp [cutLine]
      · simp [cutLine, lines]
    have hlines : lines (c :: s) = consHead c (lines s) :=
      lines_cons hc fun hr hs => hreturn ⟨hr, hs⟩
    cases s with
    | nil =>
      have hmem : '\n' ∉ [c] := by simp [Ne.symm hc]
      exact ⟨[c], [], by simp [cutLine], hlines, hmem, .inr (.inr ⟨rfl, rfl⟩)⟩
    | cons d s =>
      obtain ⟨l, ending, hs, hl, hmem, hending⟩ := ih (by simp)
      refine ⟨c :: l, ending, ?_, ?_, ?_, hending⟩
      · rw [List.cons_append, List.cons_append, ← hs]
      · rw [hlines, hl]
        rfl
      · simp [Ne.symm hc, hmem]

theorem newline_notMem_of_mem_lines (h : l ∈ lines s) : '\n' ∉ l := by
  induction s using WellFounded.induction (measure List.length).wf with
  | _ s ih =>
    by_cases hs : s = []
    · subst hs
      cases h
    · obtain ⟨first, _, -, hlines, hfirst, -⟩ := exists_append_cutLine hs
      rw [hlines] at h
      rcases List.mem_cons.1 h with rfl | h
      · exact hfirst
      · exact ih _ (length_cutLine_lt hs) h

/-- The line without a carriage return at its end. -/
def dropReturn : Text → Text
  | [] => []
  | c :: s => if c = '\r' ∧ s = [] then [] else c :: dropReturn s

theorem lines_append_newline (h : '\n' ∉ l) : lines (l ++ '\n' :: s) = dropReturn l :: lines s := by
  induction l with
  | nil => rfl
  | cons c l ih =>
    simp only [List.mem_cons, not_or] at h
    cases l with
    | nil =>
      by_cases hc : c = '\r'
      · subst hc
        rfl
      · rw [List.cons_append, lines_cons (Ne.symm h.1) fun hr => absurd hr hc, ih h.2]
        simp [dropReturn, hc, consHead]
    | cons d l =>
      have hd : d ≠ '\n' := fun hd => h.2 (hd ▸ List.mem_cons_self)
      rw [List.cons_append, lines_cons (Ne.symm h.1) (fun _ => by simpa using hd), ih h.2]
      simp [dropReturn, consHead]

theorem unlines_cons (l : Text) (ls : List Text) : unlines (l :: ls) = l ++ '\n' :: unlines ls := by
  simp [unlines]

theorem lines_unlines {ls : List Text} (h : ∀ l ∈ ls, '\n' ∉ l) :
    lines (unlines ls) = ls.map dropReturn := by
  induction ls with
  | nil => rfl
  | cons l ls ih =>
    obtain ⟨hl, hls⟩ := List.forall_mem_cons.1 h
    rw [unlines_cons, lines_append_newline hl, ih hls, List.map_cons]

theorem exists_append_dropReturn (l : Text) :
    ∃ after, l = dropReturn l ++ after ∧ ∀ c ∈ after, isBlank c := by
  induction l with
  | nil => exact ⟨[], rfl, by simp⟩
  | cons c l ih =>
    obtain ⟨after, hl, hafter⟩ := ih
    by_cases h : c = '\r' ∧ l = []
    · obtain ⟨rfl, rfl⟩ := h
      exact ⟨['\r'], rfl, List.forall_mem_singleton.2 (by decide)⟩
    · refine ⟨after, ?_, hafter⟩
      rw [dropReturn, if_neg h, List.cons_append, ← hl]

theorem trim_append_of_forall (h : ∀ c ∈ t, isBlank c) : trim (s ++ t) = trim s := by
  have ht : t.dropWhile isBlank = [] := List.dropWhile_eq_nil_iff.2 h
  unfold trim trimStart trimEnd
  rw [List.dropWhile_append]
  split
  · rename_i hs
    rw [List.isEmpty_iff.1 hs, ht]
  · exact dropEndWhile_append_of_pos _ h

theorem trim_dropReturn (l : Text) : trim (dropReturn l) = trim l := by
  obtain ⟨after, hl, hafter⟩ := exists_append_dropReturn l
  have htrim : trim (dropReturn l ++ after) = trim (dropReturn l) := trim_append_of_forall hafter
  rw [← htrim, ← hl]

end RegisterMachine.Text
