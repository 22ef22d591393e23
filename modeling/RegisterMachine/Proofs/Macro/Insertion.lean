import RegisterMachine.Proofs.Macro.Origins

/-!
# Lines put into a text

A line that opens no definition can be put between two lines of a text without disturbing the
definitions of the text, if it does not stand inside of one (`exists_segments_insert`). It completes
no definition, as the start of one would have to be on a line in front of it, and such a line is
refused by the assembler where it is not part of a definition. It breaks none, as a definition that
ends in front of it is read up to its closing brace only.
-/

namespace RegisterMachine

/-- Where the definitions of a text start and end, if its segments start at position `n`. -/
def Segment.ranges (n : Nat) : List Segment → List (Nat × Nat)
  | [] => []
  | text s :: segs => ranges (n + s.length) segs
  | definition s _ :: segs => (n, n + s.length) :: ranges (n + s.length) segs

section Reading

variable {c e : Char} {s t t' u name params body rest : Text} {p : Char → Bool}

theorem Text.exists_of_dropWhile (h : s.dropWhile p = e :: t) :
    ∃ before, s = before ++ e :: t ∧ s.takeWhile p = before ∧
      ∀ t', (before ++ e :: t').dropWhile p = e :: t' ∧
        (before ++ e :: t').takeWhile p = before := by
  have hbefore : ∀ d ∈ s.takeWhile p, p d := fun d hd => List.mem_takeWhile_imp hd
  have he : ¬ p e := by
    have hhead := List.head?_dropWhile_not p s
    rw [h] at hhead
    exact Bool.eq_false_iff.1 hhead
  refine ⟨s.takeWhile p, ?_, rfl, fun t' => ?_⟩
  · rw [← h, List.takeWhile_append_dropWhile]
  · rw [List.dropWhile_append_of_pos hbefore, List.takeWhile_append_of_pos hbefore,
      List.dropWhile_cons_of_neg he, List.takeWhile_cons_of_neg he, List.append_nil]
    exact ⟨rfl, rfl⟩

/-- An identifier is read up to the character that ends it. -/
theorem Text.ident?_append (h : ident? s = some (name, e :: t)) (t' : Text) :
    ∃ d r, name = d :: r ∧ ident? (name ++ e :: t') = some (name, e :: t') := by
  cases s with
  | nil => cases h
  | cons c s =>
    simp only [ident?] at h
    split at h
    · rename_i hc
      obtain ⟨rfl, hdrop⟩ := Prod.mk.inj (Option.some.inj h)
      obtain ⟨before, -, hbefore, hagain⟩ := exists_of_dropWhile hdrop
      refine ⟨c, _, rfl, ?_⟩
      rw [hbefore, List.cons_append, ident?, if_pos hc, (hagain t').1, (hagain t').2]
    · cases h

/-- So are the characters in front of it and behind it, up to a character that is kept. -/
theorem Text.exists_of_ident? (h : ident? (s.dropWhile p) = some (name, u ++ c :: t)) :
    s = s.takeWhile p ++ (name ++ (u ++ c :: t)) ∧
      ∀ t', ident? ((s.takeWhile p ++ (name ++ (u ++ c :: t'))).dropWhile p) =
        some (name, u ++ c :: t') := by
  have hs := append_of_ident?_eq_some h
  refine ⟨by rw [hs, List.takeWhile_append_dropWhile], fun t' => ?_⟩
  -- the identifier ends with the first character of `u`, or with `c`
  obtain ⟨e, r, r', hr, hr'⟩ : ∃ e r r', u ++ c :: t = e :: r ∧ u ++ c :: t' = e :: r' := by
    cases u with
    | nil => exact ⟨c, t, t', rfl, rfl⟩
    | cons e u => exact ⟨e, _, _, rfl, rfl⟩
  rw [hr] at h hs
  obtain ⟨d, rest, rfl, hident⟩ := ident?_append h r'
  obtain ⟨before, -, hbefore, hagain⟩ := exists_of_dropWhile hs.symm
  rw [hr', hbefore, List.cons_append, (hagain _).1]
  exact hident

theorem Text.cut?_append_cons (h : cut? c s = some (u, t)) (t' : Text) :
    cut? c (u ++ c :: t') = some (u, t') := by
  rw [cut?_append_of_notMem (eq_of_cut?_eq_some h).2]
  simp [cut?]

namespace MacroDef

/-- A header is read up to its brace. -/
theorem exists_of_header? (h : header? s = some (name, params, rest)) :
    ∃ head, s = head ++ '{' :: rest ∧
      ∀ rest', header? (head ++ '{' :: rest') = some (name, params, rest') := by
  unfold header? at h
  split at h
  · rename_i c s'
    obtain ⟨_, hc, h⟩ := Option.bind_eq_some_iff.1 h
    obtain ⟨⟨a, t⟩, hident, h⟩ := Option.bind_eq_some_iff.1 h
    dsimp only at h
    split at h
    · rename_i u hu
      obtain ⟨⟨b, v⟩, hcut, h⟩ := Option.bind_eq_some_iff.1 h
      dsimp only at h
      split at h
      · rename_i r hr
        simp only [Option.pure_def, Option.some.injEq, Prod.mk.injEq] at h
        obtain ⟨rfl, rfl, rfl⟩ := h
        obtain ⟨w₂, rfl, -, hagain₂⟩ := Text.exists_of_dropWhile hu
        obtain ⟨w₃, rfl, -, hagain₃⟩ := Text.exists_of_dropWhile hr
        obtain ⟨rfl, -⟩ := Text.eq_of_cut?_eq_some hcut
        obtain ⟨hs, hagain⟩ := Text.exists_of_ident? hident
        obtain ⟨w, hw⟩ : ∃ w, (c :: s').takeWhile Text.isAsciiBlank = c :: w :=
          ⟨_, List.takeWhile_cons_of_pos ((Option.guard_eq_some' _).1 hc)⟩
        rw [hw] at hs hagain
        refine ⟨c :: w ++ (a ++ (w₂ ++ '(' :: (b ++ ')' :: w₃))), ?_, fun rest' => ?_⟩
        · rw [hs]
          simp
        · have hident' := hagain (b ++ ')' :: (w₃ ++ '{' :: rest'))
          have htext : c :: w ++ (a ++ (w₂ ++ '(' :: (b ++ ')' :: w₃))) ++ '{' :: rest' =
              c :: w ++ (a ++ (w₂ ++ '(' :: (b ++ ')' :: (w₃ ++ '{' :: rest')))) := by
            simp
          rw [htext]
          refine Option.bind_eq_some_iff.2 ⟨(), hc, ?_⟩
          refine Option.bind_eq_some_iff.2 ⟨_, hident', ?_⟩
          dsimp only
          rw [(hagain₂ _).1]
          refine Option.bind_eq_some_iff.2 ⟨_, Text.cut?_append_cons hcut _, ?_⟩
          dsimp only
          rw [(hagain₃ rest').1]
          rfl
      · cases h
    · cases h
  · cases h

/-- A definition is read up to its closing brace. -/
theorem exists_of_find (h : find s = .definition name params body rest) :
    ∃ head, s = head ++ '}' :: rest ∧
      ∀ rest', find (head ++ '}' :: rest') = .definition name params body rest' := by
  unfold find at h
  split at h
  · cases h
  · rename_i n q t hbind
    split at h
    · cases h
    · rename_i b r hcut
      cases h
      obtain ⟨u, hu, hheader⟩ := Option.bind_eq_some_iff.1 hbind
      obtain ⟨head, rfl, hagain⟩ := exists_of_header? hheader
      obtain ⟨rfl, -⟩ := Text.eq_of_cut?_eq_some hcut
      refine ⟨keyword ++ head ++ '{' :: body, ?_, fun rest' => ?_⟩
      · rw [Text.dropPrefix?_eq_some_iff.1 hu]
        simp
      · have hprefix :
            Text.dropPrefix? keyword (keyword ++ head ++ '{' :: body ++ '}' :: rest') =
              some (head ++ '{' :: (body ++ '}' :: rest')) :=
          Text.dropPrefix?_eq_some_iff.2 (by simp)
        rw [find, hprefix, Option.bind_some, hagain]
        dsimp only
        rw [Text.cut?_append_cons hcut]

end MacroDef

end Reading

section Segments

variable {file s t a b l line w name params body rest : Text} {segs later : List Segment} {n : Nat}

theorem Text.upTo_append_left (s t : Text) : upTo (s ++ t) t = s := by
  simp [upTo]

theorem Text.trimStart_append (h : ∀ c ∈ s, isBlank c) : trimStart (s ++ t) = trimStart t :=
  List.dropWhile_append_of_pos h

/-- The text reads as a definition when a closing brace follows, whatever stands behind it. -/
structure MacroDef.Spells (head name params body : Text) : Prop where
  trimStart (t : Text) : Text.trimStart (head ++ '}' :: t) = head ++ '}' :: t
  find (t : Text) : MacroDef.find (head ++ '}' :: t) = .definition name params body t

theorem MacroDef.exists_spells (h : find (Text.trimStart s) = .definition name params body rest) :
    ∃ head, Text.trimStart s = head ++ '}' :: rest ∧ Spells head name params body := by
  obtain ⟨head, hhead, hfind⟩ := exists_of_find h
  refine ⟨head, hhead, fun t => ?_, hfind⟩
  have hfirst := List.head?_dropWhile_not Text.isBlank s
  unfold Text.trimStart at hhead
  rw [hhead] at hfirst
  cases head with
  | nil => exact List.dropWhile_cons_of_neg (Bool.eq_false_iff.1 hfirst)
  | cons c head => exact List.dropWhile_cons_of_neg (Bool.eq_false_iff.1 hfirst)

/-- How a text is cut: behind a definition with blanks in front of it, or behind its first line. -/
inductive Segment.Cuts (file : Text) : Text → List Segment → Prop
  | nil : Cuts file [] []
  | definition {lead head name params body rest : Text} {later : List Segment}
    (hlead : ∀ c ∈ lead, Text.isBlank c) (hspells : MacroDef.Spells head name params body)
    (hlater : segments file rest = .ok later) :
    Cuts file (lead ++ (head ++ '}' :: rest)) (.text lead ::
      .definition (head ++ ['}']) (.ofSource file name params body) :: later)
  | line {s : Text} {later : List Segment} (hs : s ≠ [])
    (hnothing : MacroDef.find (Text.trimStart s) = .nothing)
    (hlater : segments file (Text.cutLine s).2 = .ok later) :
    Cuts file s (.text (Text.cutLine s).1 :: later)

theorem cuts_of_segments (h : segments file s = .ok segs) : Segment.Cuts file s segs := by
  rw [segments] at h
  split at h
  · rename_i hs
    subst hs
    cases h
    exact .nil
  rename_i hs
  dsimp only at h
  split at h
  · rename_i name params body rest hf
    obtain ⟨later, hlater, h⟩ := bind_eq_ok_iff.1 h
    obtain rfl := pure_eq_ok_iff.1 h
    obtain ⟨lead, hlead, hblank⟩ := Text.exists_append_trimStart s
    obtain ⟨head, hhead, hspells⟩ := MacroDef.exists_spells hf
    have hupTo : Text.upTo s (Text.trimStart s) = lead := by
      have hupTo := Text.upTo_append_left lead (Text.trimStart s)
      rwa [← hlead] at hupTo
    have hsource : Text.upTo (Text.trimStart s) rest = head ++ ['}'] := by
      have hsource := Text.upTo_append_left (head ++ ['}']) rest
      rwa [List.append_assoc, List.singleton_append, ← hhead] at hsource
    have hcuts := Segment.Cuts.definition hblank hspells hlater
    rwa [← hhead, ← hlead, ← hsource, ← hupTo] at hcuts
  · cases h
  · rename_i hf
    obtain ⟨later, hlater, h⟩ := bind_eq_ok_iff.1 h
    obtain rfl := pure_eq_ok_iff.1 h
    exact .line hs hf hlater

/-- A definition is cut off, and the cutting goes on behind it. -/
theorem segments_definition {lead head : Text} (hlead : ∀ c ∈ lead, Text.isBlank c)
    (hspells : MacroDef.Spells head name params body) (rest : Text) :
    segments file (lead ++ (head ++ '}' :: rest)) = (segments file rest).map fun later =>
      .text lead :: .definition (head ++ ['}']) (.ofSource file name params body) :: later := by
  have htrim : Text.trimStart (lead ++ (head ++ '}' :: rest)) = head ++ '}' :: rest := by
    rw [Text.trimStart_append hlead, hspells.trimStart]
  have hsource := Text.upTo_append_left (head ++ ['}']) rest
  rw [List.append_assoc, List.singleton_append] at hsource
  rw [segments, dif_neg (by simp)]
  dsimp only
  split <;> rename_i hf <;> rw [htrim, hspells.find] at hf <;> cases hf
  rw [htrim, Text.upTo_append_left, hsource]
  cases segments file rest <;> rfl

/-- Where nothing is found, the first line is cut off, and the cutting goes on behind it. -/
theorem segments_of_nothing (hs : s ≠ []) (hf : MacroDef.find (Text.trimStart s) = .nothing) :
    segments file s =
      (segments file (Text.cutLine s).2).map fun later => .text (Text.cutLine s).1 :: later := by
  rw [segments, dif_neg hs]
  dsimp only
  split <;> rename_i hf' <;> rw [hf] at hf' <;> cases hf'
  cases segments file (Text.cutLine s).2 <;> rfl

theorem segments_of_unterminated (hf : MacroDef.find (Text.trimStart s) = .unterminated name) :
    segments file s = .error name := by
  have hs : s ≠ [] := by
    rintro rfl
    cases hf
  rw [segments, dif_neg hs]
  dsimp only
  split <;> rename_i hf' <;> rw [hf] at hf' <;> cases hf'
  rfl

theorem segments_of_cuts (h : Segment.Cuts file s segs) : segments file s = .ok segs := by
  cases h with
  | nil => rw [segments, dif_pos rfl]
  | definition hlead hspells hlater =>
    rw [segments_definition hlead hspells, hlater]
    rfl
  | line hs hnothing hlater =>
    rw [segments_of_nothing hs hnothing, hlater]
    rfl

/-- The segments `segs'` are those of a text that has `t` in front of the text of `segs`, and `t`
has no part in a definition. -/
structure Segment.Prepends (t : Text) (segs segs' : List Segment) : Prop where
  definitions : segs'.filterMap definition? = segs.filterMap definition?
  text : MacroTable.blankedText segs' = t ++ MacroTable.blankedText segs

/-- A line that opens no definition is kept in front of a text as it is. -/
theorem exists_segments_line (hline : '\n' ∉ line) (hopens : ¬ Line.OpensDefinition line)
    (h : segments file s = .ok segs) :
    ∃ segs', segments file (line ++ '\n' :: s) = .ok segs' ∧
      Segment.Prepends (line ++ ['\n']) segs segs' := by
  -- where nothing is found, the line is a segment
  have hnothing (hf : MacroDef.find (Text.trimStart (line ++ '\n' :: s)) = .nothing) :
      ∃ segs', segments file (line ++ '\n' :: s) = .ok segs' ∧
        Segment.Prepends (line ++ ['\n']) segs segs' := by
    have hcut := Text.cutLine_append (s := s) hline
    have hsegs := segments_of_cuts (.line (by simp) hf (by rw [hcut]; exact h))
    rw [hcut] at hsegs
    exact ⟨_, hsegs, rfl, rfl⟩
  by_cases hblank : Text.trimStart line = []
  · have hblank : ∀ c ∈ line ++ ['\n'], Text.isBlank c := by
      intro c hc
      rcases List.mem_append.1 hc with hc | hc
      · exact List.dropWhile_eq_nil_iff.1 hblank c hc
      · obtain rfl := List.mem_singleton.1 hc
        decide
    have htrim : Text.trimStart (line ++ '\n' :: s) = Text.trimStart s := by
      have htrim := Text.trimStart_append (t := s) hblank
      rwa [List.append_assoc] at htrim
    cases cuts_of_segments h with
    | nil => exact hnothing (by rw [htrim]; rfl)
    | @definition lead head name params body rest later hlead hspells hlater =>
      -- the definition has more blanks in front of it
      have hlead' : ∀ c ∈ line ++ ['\n'] ++ lead, Text.isBlank c := by
        intro c hc
        rcases List.mem_append.1 hc with hc | hc
        · exact hblank c hc
        · exact hlead c hc
      have hsegs := segments_of_cuts (.definition hlead' hspells hlater)
      rw [List.append_assoc, List.append_assoc, List.singleton_append] at hsegs
      exact ⟨_, hsegs, rfl, by simp [MacroTable.blankedText, Segment.blanked]⟩
    | line _ hf => exact hnothing (by rw [htrim]; exact hf)
  · apply hnothing
    by_contra hf
    have htrim : Text.trimStart (line ++ '\n' :: s) = Text.trimStart line ++ '\n' :: s :=
      Text.dropWhile_append_of_ne_nil hblank
    rw [htrim] at hf
    exact hopens (MacroDef.opensDefinition_of_find (by simp) hf)

/-- The text is empty or ends with a line feed: what follows starts on a new line. -/
def Text.EndsLine (a : Text) : Prop :=
  a = [] ∨ a.getLast? = some '\n'

theorem Text.EndsLine.exists_line (h : EndsLine a) (hne : a ≠ []) :
    ∃ l t, a = l ++ '\n' :: t ∧ '\n' ∉ l ∧ EndsLine t := by
  have hlast := h.resolve_left hne
  obtain ⟨l, t, rfl, hl⟩ := List.eq_append_cons_of_mem (List.mem_of_getLast? hlast)
  refine ⟨l, t, rfl, hl, ?_⟩
  cases t with
  | nil => exact .inl rfl
  | cons c t => exact .inr (by simpa using hlast)

/-- Such a text is taken apart line by line. -/
@[elab_as_elim]
theorem Text.EndsLine.induction {P : Text → Prop} (h : EndsLine a) (nil : P [])
    (line : ∀ l t, '\n' ∉ l → EndsLine t → P t → P (l ++ '\n' :: t)) : P a := by
  induction a using WellFounded.induction (measure List.length).wf with
  | _ a ih =>
    by_cases hne : a = []
    · exact hne ▸ nil
    · obtain ⟨l, t, rfl, hl, ht⟩ := h.exists_line hne
      have hlt : t.length < (l ++ '\n' :: t).length := by simp; omega
      exact line l t hl ht (ih t hlt ht)

theorem Text.EndsLine.of_append (h : EndsLine (a ++ b)) : EndsLine b := by
  by_cases hb : b = []
  · exact .inl hb
  · rcases h with h | h
    · exact absurd (List.append_eq_nil_iff.1 h).2 hb
    · exact .inr (by rwa [List.getLast?_append_of_ne_nil _ hb] at h)

theorem Text.EndsLine.eq_nil_of_count (h : EndsLine a) (hcount : a.count '\n' = 0) : a = [] := by
  by_contra hne
  have hmem := List.mem_of_getLast? (h.resolve_left hne)
  exact List.count_eq_zero.1 hcount hmem

/-- Blank lines in front of a text are kept as they are. -/
theorem exists_segments_blankLines (ha : Text.EndsLine a) (hblank : ∀ c ∈ a, Text.isBlank c)
    (h : segments file s = .ok segs) :
    ∃ segs', segments file (a ++ s) = .ok segs' ∧ Segment.Prepends a segs segs' := by
  revert hblank
  refine ha.induction (fun _ => ⟨segs, h, rfl, rfl⟩) fun l t hl _ ih hblank => ?_
  obtain ⟨segs', hsegs', hdefs, htext⟩ := ih fun c hc => hblank c (by simp [hc])
  have hopens : ¬ Line.OpensDefinition l := by
    rintro ⟨tail, htail, -⟩
    have hnil : Text.trimStart l = [] :=
      List.dropWhile_eq_nil_iff.2 fun c hc => hblank c (by simp [hc])
    rw [hnil] at htail
    cases htail
  obtain ⟨segs'', hsegs'', hdefs', htext'⟩ := exists_segments_line hl hopens hsegs'
  refine ⟨segs'', by simpa using hsegs'', hdefs'.trans hdefs, ?_⟩
  rw [htext', htext]
  simp

/-- With a line more behind `a`, the segments `segs` of a text become `segs'`: the definitions are
the same, and the line is found again in what is left when they are blanked out. -/
structure Segment.Inserts (line a : Text) (segs segs' : List Segment) : Prop where
  definitions : segs'.filterMap definition? = segs.filterMap definition?
  texts : ∃ x y, MacroTable.blankedText segs = x ++ y ∧
    MacroTable.blankedText segs' = x ++ (line ++ '\n' :: y) ∧ x.count '\n' = a.count '\n' ∧
    Text.EndsLine x

/-- Segments in front stay as they are. -/
theorem Segment.Inserts.append {segs' : List Segment} (h : Inserts line a segs segs')
    (ha : Text.EndsLine a) (before : List Segment)
    (hbefore : a = [] → Text.EndsLine (MacroTable.blankedText before)) :
    Inserts line (before.flatMap source ++ a) (before ++ segs) (before ++ segs') := by
  obtain ⟨hdefs, x, y, hsegs, hsegs', hcount, hx⟩ := h
  refine ⟨by rw [List.filterMap_append, List.filterMap_append, hdefs],
    MacroTable.blankedText before ++ x, y, ?_, ?_, ?_, ?_⟩
  · rw [MacroTable.blankedText, List.flatMap_append, List.append_assoc, ← hsegs]
    rfl
  · rw [MacroTable.blankedText, List.flatMap_append, List.append_assoc, ← hsegs']
    rfl
  · rw [List.count_append, List.count_append, hcount, (thins_flatMap_blanked before).2]
  · by_cases hnil : x = []
    · subst hnil
      rw [List.append_nil]
      exact hbefore (ha.eq_nil_of_count hcount.symm)
    · refine .inr ?_
      rw [List.getLast?_append_of_ne_nil _ hnil]
      exact hx.resolve_left hnil

theorem Segment.Inserts.congr {segs' segs'' : List Segment} (h : Inserts line a segs segs')
    (hdefs : segs''.filterMap definition? = segs'.filterMap definition?)
    (htext : MacroTable.blankedText segs'' = MacroTable.blankedText segs') :
    Inserts line a segs segs'' :=
  ⟨hdefs.trans h.definitions, htext ▸ h.texts⟩

theorem Segment.Prepends.inserts {rest segs' segs'' : List Segment}
    (h : Prepends (line ++ ['\n']) rest segs') (h' : Prepends a segs' segs'')
    (hsegs : Prepends a rest segs) (ha : Text.EndsLine a) : Inserts line a segs segs'' := by
  refine ⟨h'.definitions.trans (h.definitions.trans hsegs.definitions.symm), a, _, hsegs.text, ?_,
    rfl, ha⟩
  rw [h'.text, h.text, List.append_assoc, List.singleton_append]

theorem Text.exists_of_append_eq (h : a ++ b = s ++ t) (hle : a.length ≤ s.length) :
    ∃ u, s = a ++ u ∧ b = u ++ t := by
  obtain ⟨u, rfl⟩ := List.prefix_of_prefix_length_le ⟨b, h⟩ (List.prefix_append s t) hle
  exact ⟨u, rfl, List.append_cancel_left (h.trans (List.append_assoc a u t))⟩

theorem Text.lines_append (h : EndsLine a) : lines (a ++ b) = lines a ++ lines b := by
  refine h.induction rfl fun l t hl _ ih => ?_
  rw [List.append_assoc, List.cons_append, lines_append_newline hl, lines_append_newline hl, ih,
    List.cons_append]

theorem Text.length_lines (h : EndsLine a) : (lines a).length = a.count '\n' := by
  refine h.induction rfl fun l t hl _ ih => ?_
  rw [lines_append_newline hl, List.length_cons, ih, List.count_append, List.count_cons_self,
    List.count_eq_zero.2 hl, Nat.zero_add]

theorem Text.exists_append_lastLine (w : Text) :
    ∃ u v, w = u ++ v ∧ EndsLine u ∧ '\n' ∉ v := by
  induction w with
  | nil => exact ⟨[], [], rfl, .inl rfl, by simp⟩
  | cons c w ih =>
    obtain ⟨u, v, rfl, hu, hv⟩ := ih
    by_cases hnil : u = []
    · subst hnil
      by_cases hc : c = '\n'
      · exact ⟨[c], v, rfl, .inr (by simp [hc]), hv⟩
      · exact ⟨[], c :: v, rfl, .inl rfl, by simp [Ne.symm hc, hv]⟩
    · refine ⟨c :: u, v, rfl, .inr ?_, hv⟩
      obtain ⟨d, u, rfl⟩ := List.exists_cons_of_ne_nil hnil
      simpa using hu.resolve_left hnil

/-- Blanks at the end of a line are no part of what opens a definition. -/
theorem Line.OpensDefinition.of_append (h : OpensDefinition (l ++ w))
    (hw : ∀ c ∈ w, Text.isBlank c) : OpensDefinition l := by
  obtain ⟨tail, htail, hblank, hstart⟩ := h
  have hne : Text.trimStart l ≠ [] := by
    intro hnil
    have hl := List.dropWhile_eq_nil_iff.1 hnil
    have hlw : Text.trimStart (l ++ w) = [] := List.dropWhile_eq_nil_iff.2 fun c hc =>
      (List.mem_append.1 hc).elim (hl c) (hw c)
    rw [hlw] at htail
    cases htail
  have heq : Text.trimStart l ++ w = MacroDef.keyword ++ tail := by
    rw [← htail]
    exact (Text.dropWhile_append_of_ne_nil hne).symm
  obtain ⟨tail', hl, rfl⟩ := MacroDef.exists_of_append_eq_keyword_append
    (fun c hc => hw c (List.mem_of_mem_head? hc)) heq
  refine ⟨tail', hl, isBlank_of_head? hblank, fun c hc => hstart c ?_⟩
  have hne' : tail'.dropWhile Text.isAsciiBlank ≠ [] := by
    intro hnil
    rw [hnil] at hc
    cases hc
  rw [Text.dropWhile_append_of_ne_nil hne', List.head?_append_of_ne_nil _ hne']
  exact hc

theorem Line.OpensDefinition.dropReturn (h : OpensDefinition l) :
    OpensDefinition (Text.dropReturn l) := by
  obtain ⟨after, hl, hafter⟩ := Text.exists_append_dropReturn l
  rw [hl] at h
  exact h.of_append hafter

/-- Behind blanks, a line opens a definition if it does alone, and the lines behind it are the
same. -/
theorem Text.exists_lines_append (hw : ∀ c ∈ w, isBlank c) (hl : '\n' ∉ l) (t : Text) :
    ∃ ls r, lines (w ++ (l ++ '\n' :: t)) = ls ++ r :: lines t ∧
      (Line.OpensDefinition l → Line.OpensDefinition r) := by
  obtain ⟨u, v, rfl, hu, hv⟩ := exists_append_lastLine w
  refine ⟨lines u, Text.dropReturn (v ++ l), ?_, fun hopens => ?_⟩
  · have hvl : '\n' ∉ v ++ l := by simp [hv, hl]
    rw [List.append_assoc, lines_append hu, ← List.append_assoc v, lines_append_newline hvl]
  · apply Line.OpensDefinition.dropReturn
    rw [Line.OpensDefinition, trimStart_append fun c hc => hw c (List.mem_append_right u hc)]
    exact hopens

/-- The line stands in front of a definition. -/
theorem exists_inserts_before (ha : Text.EndsLine a) (hline : '\n' ∉ line)
    (hopens : ¬ Line.OpensDefinition line) (hlead : ∀ c ∈ a ++ w, Text.isBlank c)
    (hspells : MacroDef.Spells s name params body) (hlater : segments file rest = .ok later) :
    ∃ segs', segments file (a ++ (line ++ '\n' :: (w ++ (s ++ '}' :: rest)))) = .ok segs' ∧
      Segment.Inserts line a (.text (a ++ w) ::
        .definition (s ++ ['}']) (.ofSource file name params body) :: later) segs' := by
  have hrest := segments_of_cuts
    (.definition (fun c hc => hlead c (List.mem_append_right a hc)) hspells hlater)
  obtain ⟨segs, hsegs, h⟩ := exists_segments_line hline hopens hrest
  obtain ⟨segs', hsegs', h'⟩ := exists_segments_blankLines ha
    (fun c hc => hlead c (List.mem_append_left w hc)) hsegs
  refine ⟨segs', hsegs', h.inserts h' ⟨rfl, ?_⟩ ha⟩
  simp [MacroTable.blankedText, Segment.blanked]

/-- The line stands behind a definition. -/
theorem exists_inserts_behind {segs' : List Segment} (ht : Text.EndsLine t) (hne : t ≠ [])
    (hlead : ∀ c ∈ w, Text.isBlank c) (hspells : MacroDef.Spells s name params body)
    (hsegs' : segments file (t ++ b) = .ok segs') (h : Segment.Inserts line t later segs') :
    ∃ segs'', segments file (w ++ (s ++ ['}']) ++ t ++ b) = .ok segs'' ∧
      Segment.Inserts line (w ++ (s ++ ['}']) ++ t) (.text w ::
        .definition (s ++ ['}']) (.ofSource file name params body) :: later) segs'' := by
  let before : List Segment :=
    [.text w, .definition (s ++ ['}']) (.ofSource file name params body)]
  have hinserts := h.append ht before fun hnil => absurd hnil hne
  refine ⟨before ++ segs', ?_, by simpa [before, Segment.source] using hinserts⟩
  simpa [before] using segments_of_cuts (.definition hlead hspells hsegs')

/-- The line stands behind another one. -/
theorem exists_inserts_behind_line {segs' : List Segment} (ht : Text.EndsLine t) (hl : '\n' ∉ l)
    (hopens : ¬ Line.OpensDefinition l) (hsegs' : segments file (t ++ b) = .ok segs')
    (h : Segment.Inserts line t later segs') :
    ∃ segs'', segments file (l ++ '\n' :: t ++ b) = .ok segs'' ∧
      Segment.Inserts line (l ++ '\n' :: t) (.text (l ++ ['\n']) :: later) segs'' := by
  obtain ⟨segs'', hsegs'', hdefs, htext⟩ := exists_segments_line hl hopens hsegs'
  have hends : Text.EndsLine (MacroTable.blankedText [.text (l ++ ['\n'])]) :=
    .inr (by simp [MacroTable.blankedText, Segment.blanked])
  have hinserts := (h.append ht [.text (l ++ ['\n'])] fun _ => hends).congr hdefs
    (by simpa [MacroTable.blankedText, Segment.blanked] using htext)
  exact ⟨segs'', by simpa using hsegs'', by simpa [Segment.source] using hinserts⟩

/-- What a definition leaves behind is white space. -/
theorem Text.isBlank_of_mem_lineFeeds {c : Char} (hc : c ∈ s.filter (· == '\n')) : isBlank c := by
  obtain rfl : c = '\n' := by simpa using (List.mem_filter.1 hc).2
  decide

/-- A line can be put between the lines of a text wherever it is in no definition, if it opens none
and no line of the text that is left when the definitions are blanked out does. -/
theorem exists_segments_insert {p : Nat} (h : segments file (a ++ b) = .ok segs)
    (ha : Text.EndsLine a) (hp : p = n + a.length)
    (houtside : ∀ r ∈ Segment.ranges n segs, ¬ (r.1 < p ∧ p < r.2))
    (hw : ∀ c ∈ w, Text.isBlank c)
    (hlines : ∀ l ∈ Text.lines (w ++ MacroTable.blankedText segs), ¬ Line.OpensDefinition l)
    (hline : '\n' ∉ line) (hopens : ¬ Line.OpensDefinition line) :
    ∃ segs', segments file (a ++ (line ++ '\n' :: b)) = .ok segs' ∧
      Segment.Inserts line a segs segs' := by
  -- `w` holds the blanks that were skipped since the last line that is no definition
  induction a using WellFounded.induction (measure List.length).wf generalizing b segs n w with
  | _ a ih =>
    by_cases hne : a = []
    · subst hne
      obtain ⟨segs', hsegs', hprepends⟩ := exists_segments_line hline hopens h
      exact ⟨segs', hsegs', hprepends.inserts ⟨rfl, rfl⟩ ⟨rfl, rfl⟩ ha⟩
    generalize hs : a ++ b = s at h
    cases cuts_of_segments h with
    | nil => exact absurd (List.append_eq_nil_iff.1 hs).1 hne
    | @definition lead head name params body rest later hlead hspells hlater =>
      by_cases hle : a.length ≤ lead.length
      · obtain ⟨v, rfl, rfl⟩ := Text.exists_of_append_eq hs hle
        exact exists_inserts_before ha hline hopens hlead hspells hlater
      · have hbehind : (lead ++ (head ++ ['}'])).length ≤ a.length := by
          have hdefinition := houtside (n + lead.length, n + lead.length + (head ++ ['}']).length)
            List.mem_cons_self
          rw [List.length_append]
          omega
        obtain ⟨t, rfl, rfl⟩ := Text.exists_of_append_eq
          (by rw [hs, List.append_assoc, List.append_assoc, List.singleton_append]) hbehind
        have ht := ha.of_append
        have hnonempty : t ≠ [] := by
          rintro rfl
          rcases ha with ha | ha <;> simp at ha
        have hp' : p = n + lead.length + (head ++ ['}']).length + t.length := by
          rw [hp, List.length_append, List.length_append]
          omega
        have hw' : ∀ c ∈ w ++ lead ++ head.filter (· == '\n'), Text.isBlank c := by
          intro c hc
          simp only [List.mem_append] at hc
          rcases hc with (hc | hc) | hc
          · exact hw c hc
          · exact hlead c hc
          · exact Text.isBlank_of_mem_lineFeeds hc
        have hlines' : ∀ l ∈ Text.lines (w ++ lead ++ head.filter (· == '\n') ++
            MacroTable.blankedText later), ¬ Line.OpensDefinition l := by
          simpa [MacroTable.blankedText, Segment.blanked] using hlines
        have hlt : t.length < (lead ++ (head ++ ['}']) ++ t).length := by simp; omega
        obtain ⟨segs', hsegs', hinserts⟩ := ih t hlt hlater ht hp'
          (fun r hr => houtside r (List.mem_cons_of_mem _ hr)) hw' hlines'
        exact exists_inserts_behind ht hnonempty hlead hspells hsegs' hinserts
    | @line s later _ _ hlater =>
      subst hs
      obtain ⟨l, t, rfl, hl, ht⟩ := ha.exists_line hne
      have hcut : Text.cutLine (l ++ '\n' :: t ++ b) = (l ++ ['\n'], t ++ b) := by
        rw [List.append_assoc]
        exact Text.cutLine_append hl
      rw [hcut] at hlater hlines houtside ⊢
      obtain ⟨ls, r, hls, hr⟩ := Text.exists_lines_append hw hl (MacroTable.blankedText later)
      have htext : w ++ MacroTable.blankedText (.text (l ++ ['\n']) :: later) =
          w ++ (l ++ '\n' :: MacroTable.blankedText later) := by
        simp [MacroTable.blankedText, Segment.blanked]
      rw [htext, hls] at hlines
      have hp' : p = n + (l ++ ['\n']).length + t.length := by
        rw [hp]
        simp
        omega
      have hlines' : ∀ l ∈ Text.lines ([] ++ MacroTable.blankedText later),
          ¬ Line.OpensDefinition l :=
        fun l hl => hlines l (List.mem_append_right ls (List.mem_cons_of_mem r hl))
      have hlt : t.length < (l ++ '\n' :: t).length := by simp; omega
      obtain ⟨segs', hsegs', hinserts⟩ := ih t hlt hlater ht hp' houtside (by simp) hlines'
      have hopens' : ¬ Line.OpensDefinition l := fun hopens =>
        hlines r (List.mem_append_right ls List.mem_cons_self) (hr hopens)
      exact exists_inserts_behind_line ht hl hopens' hsegs' hinserts

end Segments

end RegisterMachine
