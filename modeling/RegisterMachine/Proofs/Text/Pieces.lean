import Mathlib.Data.List.Basic
import Mathlib.Data.List.TakeWhile
import RegisterMachine.Text.Quoted

/-!
# Pieces of text

What trimming, comments, literals and words take out of a text. Each operation is described by the
text that it leaves out: a trimmed text stands between blanks, the text before a comment is an
initial part, and the first word stands between separators.
-/

namespace RegisterMachine.Text

variable {p q : Char → Bool} {c : Char} {s t a b w rest literal : Text}

theorem between_of_val {a b : Char} {m n : Nat} (ha : a.val ≤ c.val) (hb : c.val ≤ b.val)
    (hm : m < a.toNat) (hn : b.toNat < n) : m < c.toNat ∧ c.toNat < n :=
  ⟨Nat.lt_of_lt_of_le hm ha, Nat.lt_of_le_of_lt hb hn⟩

/-- White space is no part of a name. -/
theorem isBlank_eq_false_of_isAlphanum (h : c.isAlphanum || c == '_' || c == '.') :
    isBlank c = false := by
  have hrange : 0x20 < c.toNat ∧ c.toNat < 0x85 := by
    simp only [Bool.or_eq_true, beq_iff_eq] at h
    rcases h with (h | rfl) | rfl
    · -- upper case letters, lower case letters and digits
      have hclass : ((c.isUpper || c.isLower) || c.isDigit) = true := h
      simp only [Bool.or_eq_true] at hclass
      rcases hclass with (h | h) | h
      · have hval : 'A'.val ≤ c.val ∧ c.val ≤ 'Z'.val := of_decide_eq_true h
        exact between_of_val hval.1 hval.2 (by decide) (by decide)
      · have hval := Bool.and_eq_true_iff.1 h
        exact between_of_val (of_decide_eq_true hval.1) (of_decide_eq_true hval.2) (by decide)
          (by decide)
      · have hval := Bool.and_eq_true_iff.1 h
        exact between_of_val (of_decide_eq_true hval.1) (of_decide_eq_true hval.2) (by decide)
          (by decide)
    · decide
    · decide
  simp [isBlank, blankRanges]
  omega

theorem exists_append_dropEndWhile (p : Char → Bool) (s : Text) :
    ∃ after, s = dropEndWhile p s ++ after ∧ ∀ c ∈ after, p c := by
  induction s with
  | nil => exact ⟨[], rfl, by simp⟩
  | cons c s ih =>
    obtain ⟨after, heq, hafter⟩ := ih
    cases hs : dropEndWhile p s with
    | cons d r =>
      refine ⟨after, ?_, hafter⟩
      rw [dropEndWhile, hs, List.cons_append, ← hs, ← heq]
    | nil =>
      rw [hs, List.nil_append] at heq
      by_cases hc : p c
      · exact ⟨c :: s, by simp [dropEndWhile, hs, hc], List.forall_mem_cons.2 ⟨hc, heq ▸ hafter⟩⟩
      · exact ⟨s, by simp [dropEndWhile, hs, hc], heq ▸ hafter⟩

theorem dropEndWhile_cons_of_neg (h : p c = false) :
    dropEndWhile p (c :: s) = c :: dropEndWhile p s := by
  rw [dropEndWhile]
  cases dropEndWhile p s <;> simp [h]

theorem dropEndWhile_concat_of_neg (h : p c = false) :
    dropEndWhile p (s ++ [c]) = s ++ [c] := by
  induction s with
  | nil => simp [dropEndWhile, h]
  | cons d s ih =>
    rw [List.cons_append, dropEndWhile, ih]
    cases s <;> rfl

theorem exists_append_trimStart (s : Text) :
    ∃ before, s = before ++ trimStart s ∧ ∀ c ∈ before, isBlank c := by
  refine ⟨s.takeWhile isBlank, (List.takeWhile_append_dropWhile).symm, fun c hc => ?_⟩
  exact List.mem_takeWhile_imp hc

/-- A text is its trimmed form between blanks. -/
theorem exists_append_trim (s : Text) :
    ∃ before after, s = before ++ trim s ++ after ∧
      (∀ c ∈ before, isBlank c) ∧ ∀ c ∈ after, isBlank c := by
  obtain ⟨before, hs, hbefore⟩ := exists_append_trimStart s
  obtain ⟨after, htrim, hafter⟩ := exists_append_dropEndWhile isBlank (trimStart s)
  refine ⟨before, after, ?_, hbefore, hafter⟩
  rw [List.append_assoc, trim, trimEnd, ← htrim]
  exact hs

theorem isBlank_of_trim_eq_nil (h : trim s = []) : ∀ c ∈ s, isBlank c := by
  obtain ⟨before, after, hs, hbefore, hafter⟩ := exists_append_trim s
  rw [h, List.append_nil] at hs
  intro c hc
  rw [hs] at hc
  rcases List.mem_append.1 hc with hc | hc
  · exact hbefore c hc
  · exact hafter c hc

theorem isBlank_eq_false_of_trim (h : trim s = c :: t) : isBlank c = false := by
  cases hs : trimStart s with
  | nil =>
    rw [trim, hs] at h
    cases h
  | cons d r =>
    have hd : isBlank d = false := by
      have := List.head?_dropWhile_not isBlank s
      rw [trimStart] at hs
      simpa [hs] using this
    rw [trim, hs, trimEnd, dropEndWhile_cons_of_neg hd, List.cons.injEq] at h
    exact h.1 ▸ hd

theorem trimEnd_eq_self (h : ∀ c ∈ s.getLast?, isBlank c = false) : trimEnd s = s := by
  rcases List.eq_nil_or_concat s with rfl | ⟨r, c, rfl⟩
  · rfl
  · rw [List.concat_eq_append] at h ⊢
    exact dropEndWhile_concat_of_neg (h c (by simp))

/-- Nothing is trimmed from a text that neither starts nor ends with white space. -/
theorem trim_eq_self (hfirst : ∀ c ∈ s.head?, isBlank c = false)
    (hlast : ∀ c ∈ s.getLast?, isBlank c = false) : trim s = s := by
  have hstart : trimStart s = s := by
    cases s with
    | nil => rfl
    | cons c s => exact List.dropWhile_cons_of_neg (Bool.eq_false_iff.1 (hfirst c rfl))
  rw [trim, hstart, trimEnd_eq_self hlast]

theorem stripComment.isPrefix_go (inLiteral : Bool) (s : Text) : go inLiteral s <+: s := by
  induction s generalizing inLiteral with
  | nil => exact List.nil_prefix
  | cons c s ih =>
    unfold go
    split
    · exact List.cons_prefix_cons.2 ⟨rfl, ih _⟩
    · split
      · exact List.nil_prefix
      · exact List.cons_prefix_cons.2 ⟨rfl, ih _⟩

theorem isPrefix_stripComment (s : Text) : stripComment s <+: s :=
  stripComment.isPrefix_go false s

theorem cut?_append (h : cut? c s = some (a, b)) : cut? c (s ++ t) = some (a, b ++ t) := by
  induction s generalizing a with
  | nil => cases h
  | cons d s ih =>
    by_cases hd : d = c
    · simp only [cut?, hd, if_true, Option.some.injEq, Prod.mk.injEq] at h
      obtain ⟨rfl, rfl⟩ := h
      simp [cut?, hd]
    · simp only [cut?, hd, if_false, Option.map_eq_some_iff, Prod.mk.injEq] at h
      obtain ⟨⟨x, y⟩, hxy, rfl, rfl⟩ := h
      simp [cut?, hd, ih hxy]

theorem cut?_append_of_notMem (h : c ∉ s) :
    cut? c (s ++ t) = (cut? c t).map fun r => (s ++ r.1, r.2) := by
  induction s with
  | nil => simp
  | cons d s ih =>
    simp only [List.mem_cons, not_or] at h
    simp [cut?, Ne.symm h.1, ih h.2, Function.comp_def]

theorem cut?_eq_none_iff : cut? c s = none ↔ c ∉ s := by
  induction s with
  | nil => simp [cut?]
  | cons d s ih =>
    by_cases hd : d = c
    · simp [cut?, hd]
    · simp [cut?, hd, ih, Ne.symm hd]

theorem quoted?_eq_some_iff :
    quoted? s = some literal ↔
      ∃ a r b, cut? '"' s = some (a, r) ∧ cut? '"' r = some (literal, b) := by
  constructor
  · intro h
    obtain ⟨⟨a, r⟩, hs, h⟩ := Option.bind_eq_some_iff.1 h
    obtain ⟨⟨l, b⟩, hr, h⟩ := Option.bind_eq_some_iff.1 h
    obtain rfl := Option.some.inj h
    exact ⟨a, r, b, hs, hr⟩
  · rintro ⟨a, r, b, hs, hr⟩
    simp [quoted?, hs, hr]

theorem exists_append_of_quoted? (h : quoted? s = some literal) :
    ∃ a b, s = a ++ '"' :: (literal ++ '"' :: b) ∧ '"' ∉ a ∧ '"' ∉ literal := by
  obtain ⟨a, r, b, hs, hr⟩ := quoted?_eq_some_iff.1 h
  obtain ⟨rfl, ha⟩ := eq_of_cut?_eq_some hs
  obtain ⟨rfl, hliteral⟩ := eq_of_cut?_eq_some hr
  exact ⟨a, b, rfl, ha, hliteral⟩

/-- What follows a closed literal does not matter. -/
theorem quoted?_append (h : quoted? s = some literal) : quoted? (s ++ t) = some literal := by
  obtain ⟨a, r, b, hs, hr⟩ := quoted?_eq_some_iff.1 h
  exact quoted?_eq_some_iff.2 ⟨a, r ++ t, b ++ t, cut?_append hs, cut?_append hr⟩

/-- What precedes the first quote does not matter. -/
theorem quoted?_append_of_notMem (h : '"' ∉ s) : quoted? (s ++ t) = quoted? t := by
  simp only [quoted?, cut?_append_of_notMem h]
  cases cut? '"' t <;> rfl

theorem words_cons_of_pos (h : p c) : words p (c :: s) = words p s := by
  simp [words, pieces, h]

theorem exists_words_cons (s : Text) (h : p c = false) : ∃ w ws, words p (c :: s) = w :: ws := by
  cases hs : pieces p s with
  | nil => exact ⟨[c], [], by simp [words, pieces, h, hs, consHead]⟩
  | cons l ls => exact ⟨c :: l, ls.filter (!·.isEmpty), by simp [words, pieces, h, hs, consHead]⟩

theorem words_append_of_forall (h : ∀ c ∈ s, p c) : words p (s ++ t) = words p t := by
  induction s with
  | nil => rfl
  | cons c s ih =>
    obtain ⟨hc, hs⟩ := List.forall_mem_cons.1 h
    rw [List.cons_append, words_cons_of_pos hc, ih hs]

/-- A piece ends in front of the first separator. -/
theorem pieces_append_cons (hw : ∀ d ∈ w, p d = false) (hc : p c) (t : Text) :
    pieces p (w ++ c :: t) = w :: pieces p t := by
  induction w with
  | nil => simp [pieces, hc]
  | cons d w ih =>
    obtain ⟨hd, hw⟩ := List.forall_mem_cons.1 hw
    simp [pieces, hd, ih hw, consHead]

theorem pieces_of_forall (hw : ∀ c ∈ w, p c = false) : pieces p w = [w] := by
  induction w with
  | nil => rfl
  | cons c w ih =>
    obtain ⟨hc, hw⟩ := List.forall_mem_cons.1 hw
    simp [pieces, hc, ih hw, consHead]

theorem pieces_append_of_forall (hw : ∀ c ∈ w, p c = false) (hrest : ∀ c ∈ rest.head?, p c) :
    ∃ ls, pieces p (w ++ rest) = w :: ls ∧ words p rest = ls.filter (!·.isEmpty) := by
  cases rest with
  | nil =>
    rw [List.append_nil]
    exact ⟨[], pieces_of_forall hw, rfl⟩
  | cons d r =>
    have hd : p d := hrest d rfl
    exact ⟨pieces p r, pieces_append_cons hw hd r, by simp [words, pieces, hd]⟩

theorem words_append (hw : ∀ c ∈ w, p c = false) (hne : w ≠ []) (hrest : ∀ c ∈ rest.head?, p c) :
    words p (w ++ rest) = w :: words p rest := by
  obtain ⟨ls, hpieces, hls⟩ := pieces_append_of_forall hw hrest
  simp [words, hpieces, hne, ← hls]

/-- The first word stands behind separators and in front of another one or the end. -/
theorem exists_append_of_words {ws : List Text} (h : words p s = w :: ws) :
    ∃ before rest, s = before ++ w ++ rest ∧ (∀ c ∈ before, p c) ∧ (∀ c ∈ w, p c = false) ∧
      w ≠ [] ∧ ∀ c ∈ rest.head?, p c := by
  obtain ⟨before, t, rfl, hbefore, ht⟩ : ∃ before t, s = before ++ t ∧ (∀ c ∈ before, p c) ∧
      ∀ c ∈ t.head?, p c = false := by
    refine ⟨s.takeWhile p, s.dropWhile p, (List.takeWhile_append_dropWhile).symm,
      fun c hc => List.mem_takeWhile_imp hc, fun c hc => ?_⟩
    have := List.head?_dropWhile_not p s
    rw [Option.mem_def] at hc
    simpa [hc] using this
  obtain ⟨v, rest, rfl, hv, hrest⟩ : ∃ v rest, t = v ++ rest ∧ (∀ c ∈ v, p c = false) ∧
      ∀ c ∈ rest.head?, p c := by
    refine ⟨t.takeWhile (!p ·), t.dropWhile (!p ·), (List.takeWhile_append_dropWhile).symm,
      fun c hc => by simpa using List.mem_takeWhile_imp hc, fun c hc => ?_⟩
    have := List.head?_dropWhile_not (!p ·) t
    rw [Option.mem_def] at hc
    simpa [hc] using this
  rw [words_append_of_forall hbefore] at h
  have hne : v ≠ [] := by
    rintro rfl
    cases rest with
    | nil => cases h
    | cons d r =>
      have hd := hrest d rfl
      rw [ht d rfl] at hd
      cases hd
  rw [words_append hv hne hrest, List.cons.injEq] at h
  obtain ⟨rfl, -⟩ := h
  exact ⟨before, rest, by simp, hbefore, hv, hne, hrest⟩

/-- With more separators the first word is still one if it holds none of them. -/
theorem exists_words_of_words {ws : List Text} (hpq : ∀ c, p c → q c) (h : words p s = w :: ws)
    (hw : ∀ c ∈ w, q c = false) : ∃ vs, words q s = w :: vs := by
  obtain ⟨before, rest, rfl, hbefore, -, hne, hrest⟩ := exists_append_of_words h
  refine ⟨words q rest, ?_⟩
  rw [List.append_assoc, words_append_of_forall fun c hc => hpq c (hbefore c hc)]
  exact words_append hw hne fun c hc => hpq c (hrest c hc)

/-- A map that keeps the separators apart from the rest goes through to the words. -/
theorem words_map {f : Char → Char} (hf : ∀ c, p (f c) = p c) (s : Text) :
    words p (s.map f) = (words p s).map (List.map f) := by
  have hpieces : pieces p (s.map f) = (pieces p s).map (List.map f) := by
    induction s with
    | nil => rfl
    | cons c s ih =>
      rw [List.map_cons, pieces, pieces, hf, ih]
      split
      · rfl
      · cases pieces p s <;> rfl
  rw [words, words, hpieces, List.filter_map]
  congr 1
  refine List.filter_congr fun w _ => ?_
  simp

/-- Words with separators between them are cut apart again. -/
theorem words_join {sep : Text} {ws : List Text} (hsep : ∀ c ∈ sep, p c) (hne : sep ≠ [])
    (hws : ∀ w ∈ ws, w ≠ [] ∧ ∀ c ∈ w, p c = false) : words p (join sep ws) = ws := by
  induction ws using join.induct with
  | case1 => rfl
  | case2 w =>
    obtain ⟨hw, hchars⟩ := hws w List.mem_cons_self
    have hwords : words p (w ++ []) = [w] := words_append hchars hw (by simp)
    rwa [List.append_nil] at hwords
  | case3 w v ws ih =>
    obtain ⟨⟨hw, hchars⟩, hrest⟩ := List.forall_mem_cons.1 hws
    have hhead : ∀ c ∈ (sep ++ join sep (v :: ws)).head?, p c := by
      obtain ⟨d, r, rfl⟩ := List.exists_cons_of_ne_nil hne
      simpa using hsep d List.mem_cons_self
    rw [join, List.append_assoc, words_append hchars hw hhead, words_append_of_forall hsep,
      ih hrest]

theorem map_trim_consHead {ls : List Text} (hc : isBlank c) (hne : ls ≠ []) :
    (consHead c ls).map trim = ls.map trim := by
  obtain ⟨l, ls, rfl⟩ := List.exists_cons_of_ne_nil hne
  have htrim : trim (c :: l) = trim l := by
    rw [trim, trimStart, List.dropWhile_cons_of_pos hc]
    rfl
  rw [consHead, List.map_cons, List.map_cons, htrim]

/-- Trimmed texts come back from a text with commas and spaces between them, wherever `f` cuts the
text at these commas. -/
theorem map_trim_of_join {f : Text → List Text} {ws : List Text}
    (hspace : ∀ t, f (' ' :: t) = consHead ' ' (f t)) (hlast : ∀ w ∈ ws, f w = [w])
    (hcomma : ∀ w ∈ ws, ∀ t, f (w ++ ',' :: t) = w :: f t) (htrim : ∀ w ∈ ws, trim w = w)
    (hne : ws ≠ []) : (f (join [',', ' '] ws)).map trim = ws := by
  induction ws using join.induct with
  | case1 => exact absurd rfl hne
  | case2 w =>
    have hw := htrim w List.mem_cons_self
    rw [join, hlast w List.mem_cons_self, List.map_singleton, hw]
  | case3 w v ws ih =>
    have hrest : (f (join [',', ' '] (v :: ws))).map trim = v :: ws :=
      ih (fun u hu => hlast u (List.mem_cons_of_mem w hu))
        (fun u hu => hcomma u (List.mem_cons_of_mem w hu))
        (fun u hu => htrim u (List.mem_cons_of_mem w hu)) (List.cons_ne_nil v ws)
    have hpieces : f (join [',', ' '] (v :: ws)) ≠ [] := by
      intro hnil
      rw [hnil] at hrest
      cases hrest
    calc (f (join [',', ' '] (w :: v :: ws))).map trim
        = (f (w ++ ',' :: ' ' :: join [',', ' '] (v :: ws))).map trim := by
          rw [join, List.append_assoc]
          rfl
      _ = trim w :: (consHead ' ' (f (join [',', ' '] (v :: ws)))).map trim := by
          rw [hcomma w List.mem_cons_self, hspace, List.map_cons]
      _ = w :: v :: ws := by
          rw [map_trim_consHead (by decide) hpieces, hrest, htrim w List.mem_cons_self]

theorem mem_of_mem_join {sep : Text} {ws : List Text} (hc : c ∈ join sep ws) :
    c ∈ sep ∨ ∃ w ∈ ws, c ∈ w := by
  induction ws using join.induct with
  | case1 => cases hc
  | case2 w => exact .inr ⟨w, List.mem_cons_self, hc⟩
  | case3 w v ws ih =>
    rw [join, List.mem_append, List.mem_append] at hc
    rcases hc with (hc | hc) | hc
    · exact .inr ⟨w, List.mem_cons_self, hc⟩
    · exact .inl hc
    · rcases ih hc with hc | ⟨u, hu, hc⟩
      · exact .inl hc
      · exact .inr ⟨u, List.mem_cons_of_mem w hu, hc⟩

theorem join_ne_nil {sep : Text} {ws : List Text} (hws : ∀ w ∈ ws, w ≠ []) (hne : ws ≠ []) :
    join sep ws ≠ [] := by
  obtain ⟨w, ws, rfl⟩ := List.exists_cons_of_ne_nil hne
  have hw := hws w List.mem_cons_self
  cases ws <;> simp [join, hw]

theorem exists_mem_of_getLast?_join {sep : Text} {ws : List Text} (hws : ∀ w ∈ ws, w ≠ [])
    (hc : c ∈ (join sep ws).getLast?) : ∃ w ∈ ws, c ∈ w := by
  induction ws using join.induct with
  | case1 => cases hc
  | case2 w => exact ⟨w, List.mem_cons_self, List.mem_of_getLast? hc⟩
  | case3 w v ws ih =>
    obtain ⟨-, hrest⟩ := List.forall_mem_cons.1 hws
    rw [join, List.getLast?_append_of_ne_nil _ (join_ne_nil hrest (List.cons_ne_nil v ws))] at hc
    obtain ⟨u, hu, hcu⟩ := ih hrest hc
    exact ⟨u, List.mem_cons_of_mem w hu, hcu⟩

end RegisterMachine.Text
