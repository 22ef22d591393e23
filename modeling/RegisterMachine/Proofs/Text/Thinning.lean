import Mathlib.Data.List.Basic
import RegisterMachine.Proofs.Text.Lines
import RegisterMachine.Proofs.Text.Pieces

/-!
# Thinned texts

A text may lose characters and keep its lines: as long as no line feed is among them, what is left
of a line has the number of that line, whether the lines are taken without a carriage return at
their ends (`Thins.exists_of_getElem?_lines`) or cut at line feeds alone (`Thins.forall₂_pieces`).
-/

namespace RegisterMachine.Text

variable {s t s' t' l r rest : Text}

/-- The text `t` is `s` without some of its characters, none of them a line feed. -/
def Thins (t s : Text) : Prop :=
  t.Sublist s ∧ t.count '\n' = s.count '\n'

theorem Thins.refl (s : Text) : Thins s s :=
  ⟨.refl s, rfl⟩

theorem Thins.append (h : Thins t s) (h' : Thins t' s') : Thins (t ++ t') (s ++ s') := by
  refine ⟨h.1.append h'.1, ?_⟩
  rw [List.count_append, List.count_append, h.2, h'.2]

theorem thins_filter (s : Text) : Thins (s.filter (· == '\n')) s := by
  refine ⟨List.filter_sublist, ?_⟩
  rw [List.count_filter]
  decide

theorem Thins.notMem (h : Thins t s) (hs : '\n' ∉ s) : '\n' ∉ t :=
  fun ht => hs (h.1.subset ht)

/-- What is left of a line stands in front of the same line feed. -/
theorem Thins.exists_of_append (h : Thins t (l ++ '\n' :: rest)) (hl : '\n' ∉ l) :
    ∃ l' rest', t = l' ++ '\n' :: rest' ∧ l'.Sublist l ∧ Thins rest' rest := by
  obtain ⟨l', t', rfl, hl', ht'⟩ := List.sublist_append_iff.1 h.1
  have hcount : t'.count '\n' = rest.count '\n' + 1 := by
    have hzero : l'.count '\n' = 0 := List.count_eq_zero.2 fun hmem => hl (hl'.subset hmem)
    have := h.2
    rw [List.count_append, List.count_append, hzero, List.count_eq_zero.2 hl] at this
    simpa using this
  cases ht' with
  | cons _ ht' =>
    -- the line feed is not among the lost characters
    have := ht'.count_le '\n'
    omega
  | @cons_cons rest' _ _ hrest =>
    refine ⟨l', rest', rfl, hl', hrest, ?_⟩
    simpa using hcount

theorem dropReturn_sublist (h : t.Sublist s) : (dropReturn t).Sublist (dropReturn s) := by
  induction h with
  | slnil => exact .refl _
  | @cons t s c h ih =>
    by_cases hc : c = '\r' ∧ s = []
    · obtain ⟨-, rfl⟩ := hc
      rw [List.sublist_nil.1 h]
      exact List.nil_sublist _
    · rw [dropReturn, if_neg hc]
      exact ih.cons c
  | @cons_cons t s c h ih =>
    by_cases hs : c = '\r' ∧ s = []
    · obtain ⟨-, rfl⟩ := hs
      rw [List.sublist_nil.1 h]
    · rw [dropReturn, dropReturn, if_neg hs]
      split
      · exact List.nil_sublist _
      · exact ih.cons_cons c

theorem lines_of_notMem (h : '\n' ∉ s) (hs : s ≠ []) : lines s = [s] := by
  induction s with
  | nil => exact absurd rfl hs
  | cons c s ih =>
    simp only [List.mem_cons, not_or] at h
    rw [lines_cons (Ne.symm h.1) fun _ hhead => h.2 (List.mem_of_head? hhead)]
    cases s with
    | nil => rfl
    | cons d s =>
      rw [ih h.2 (by simp)]
      rfl

/-- What is left of a line has its number. -/
theorem Thins.exists_of_getElem?_lines (h : Thins t s) {k : Nat} (hr : (lines t)[k]? = some r) :
    ∃ w, (lines s)[k]? = some w ∧ r.Sublist w := by
  induction s using WellFounded.induction (measure List.length).wf generalizing t k with
  | _ s ih =>
    by_cases hs : '\n' ∈ s
    · obtain ⟨l, rest, rfl, hl⟩ := List.eq_append_cons_of_mem hs
      obtain ⟨l', rest', rfl, hl', hrest⟩ := h.exists_of_append hl
      rw [lines_append_newline fun hmem => hl (hl'.subset hmem)] at hr
      rw [lines_append_newline hl]
      cases k with
      | zero =>
        obtain rfl := Option.some.inj hr
        exact ⟨_, rfl, dropReturn_sublist hl'⟩
      | succ k =>
        have hlt : rest.length < (l ++ '\n' :: rest).length := by simp; omega
        exact ih rest hlt hrest hr
    · have ht : t ≠ [] := by
        rintro rfl
        cases hr
      have hne : s ≠ [] := by
        rintro rfl
        exact ht (List.sublist_nil.1 h.1)
      rw [lines_of_notMem (h.notMem hs) ht] at hr
      rw [lines_of_notMem hs hne]
      cases k with
      | zero =>
        obtain rfl := Option.some.inj hr
        exact ⟨s, rfl, h.1⟩
      | succ k => simp at hr

/-- Cut at the line feeds alone, the two texts have the same number of lines, and each line of the
thinned text is the line of that number without some of its characters. -/
theorem Thins.forall₂_pieces (h : Thins t s) :
    List.Forall₂ List.Sublist (pieces (· == '\n') t) (pieces (· == '\n') s) := by
  have hkept {l : Text} (hl : '\n' ∉ l) : ∀ c ∈ l, (c == '\n') = false := by
    intro c hc
    simpa using ne_of_mem_of_not_mem hc hl
  induction s using WellFounded.induction (measure List.length).wf generalizing t with
  | _ s ih =>
    by_cases hs : '\n' ∈ s
    · obtain ⟨l, rest, rfl, hl⟩ := List.eq_append_cons_of_mem hs
      obtain ⟨l', rest', rfl, hl', hrest⟩ := h.exists_of_append hl
      have hmem : '\n' ∉ l' := fun hmem => hl (hl'.subset hmem)
      rw [pieces_append_cons (hkept hmem) rfl, pieces_append_cons (hkept hl) rfl]
      have hlt : rest.length < (l ++ '\n' :: rest).length := by simp; omega
      exact .cons hl' (ih rest hlt hrest)
    · rw [pieces_of_forall (hkept (h.notMem hs)), pieces_of_forall (hkept hs)]
      exact .cons h.1 .nil

end RegisterMachine.Text
