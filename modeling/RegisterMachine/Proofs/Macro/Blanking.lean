import RegisterMachine.Proofs.Macro.Insertion

/-!
# Blanked definitions

Where the definitions of a text stand, and what is left when they are blanked out. A scan that goes
through the text line by line, and goes on behind a definition in the middle of its line, finds the
ranges of the definitions within as many steps as the text has characters (`MacroDef.scan?_eq`). The
ranges are those places where code starts that reads as a definition (`MacroDef.AreLocated`).
Blanking takes the characters of the ranges out of the text, line feeds apart, so every line keeps
its number (`keepsLines_of_segments`).
-/

namespace RegisterMachine

namespace Text

variable {n : Nat} {s : Text} {r : Nat × Nat} {ranges : List (Nat × Nat)}

/-- The text without the characters of the ranges, line feeds apart. Its first character stands at
position `n`. -/
def blankOut (ranges : List (Nat × Nat)) (n : Nat) (s : Text) : Text :=
  ((s.zipIdx n).filter fun x =>
    x.1 == '\n' || ranges.all fun r => decide (x.2 < r.1) || decide (r.2 ≤ x.2)).map (·.1)

theorem blankOut_append (ranges : List (Nat × Nat)) (n : Nat) (s t : Text) :
    blankOut ranges n (s ++ t) = blankOut ranges n s ++ blankOut ranges (n + s.length) t := by
  simp [blankOut, List.zipIdx_append]

theorem blankOut_eq_self (h : ∀ r ∈ ranges, n + s.length ≤ r.1 ∨ r.2 ≤ n) :
    blankOut ranges n s = s := by
  have hkept : (s.zipIdx n).filter (fun x => x.1 == '\n' ||
      ranges.all fun r => decide (x.2 < r.1) || decide (r.2 ≤ x.2)) = s.zipIdx n := by
    refine List.filter_eq_self.2 fun x hx => ?_
    have hle := List.le_snd_of_mem_zipIdx hx
    have hlt := List.snd_lt_add_of_mem_zipIdx hx
    simp only [Bool.or_eq_true, List.all_eq_true, decide_eq_true_eq]
    refine .inr fun r hr => ?_
    have := h r hr
    omega
  rw [blankOut, hkept]
  exact List.zipIdx_map_fst n s

/-- Of the text of a range, its line feeds are left. -/
theorem blankOut_eq_filter (hr : r ∈ ranges) (hstart : r.1 ≤ n) (hend : n + s.length ≤ r.2) :
    blankOut ranges n s = s.filter (· == '\n') := by
  have hkept : (s.zipIdx n).filter (fun x => x.1 == '\n' ||
      ranges.all fun r => decide (x.2 < r.1) || decide (r.2 ≤ x.2)) =
      (s.zipIdx n).filter ((· == '\n') ∘ Prod.fst) := by
    refine List.filter_congr fun x hx => ?_
    have hle := List.le_snd_of_mem_zipIdx hx
    have hlt := List.snd_lt_add_of_mem_zipIdx hx
    have hinside : (ranges.all fun r => decide (x.2 < r.1) || decide (r.2 ≤ x.2)) = false := by
      refine List.all_eq_false.2 ⟨r, hr, ?_⟩
      simp
      omega
    rw [hinside, Bool.or_false, Function.comp_apply]
  rw [blankOut, hkept, ← List.filter_map, List.zipIdx_map_fst]

theorem blankOut_cons (h : r.2 ≤ n) : blankOut (r :: ranges) n s = blankOut ranges n s := by
  unfold blankOut
  congr 1
  refine List.filter_congr fun x hx => ?_
  have hle := List.le_snd_of_mem_zipIdx hx
  simp [Nat.le_trans h hle]

end Text

namespace Segment

variable {n : Nat} {r : Nat × Nat} {segs : List Segment}

theorem bounds_of_mem_ranges (h : r ∈ ranges n segs) :
    n ≤ r.1 ∧ r.1 ≤ r.2 ∧ r.2 ≤ n + (segs.flatMap source).length := by
  induction segs generalizing n with
  | nil => cases h
  | cons seg segs ih =>
    rw [List.flatMap_cons, List.length_append]
    cases seg with
    | text s =>
      have hr := ih h
      simp only [source]
      omega
    | definition s d =>
      simp only [source]
      rcases List.mem_cons.1 h with rfl | h
      · omega
      · have hr := ih h
        omega

theorem pairwise_ranges (n : Nat) (segs : List Segment) :
    (ranges n segs).Pairwise fun r r' => r.2 ≤ r'.1 := by
  induction segs generalizing n with
  | nil => exact .nil
  | cons seg segs ih =>
    cases seg with
    | text s => exact ih _
    | definition s d => exact List.pairwise_cons.2 ⟨fun r hr => (bounds_of_mem_ranges hr).1, ih _⟩

/-- Blanking takes the definitions out of the text, line feeds apart. -/
theorem blankedText_eq_blankOut (n : Nat) (segs : List Segment) :
    MacroTable.blankedText segs = Text.blankOut (ranges n segs) n (segs.flatMap source) := by
  induction segs generalizing n with
  | nil => rfl
  | cons seg segs ih =>
    rw [List.flatMap_cons, Text.blankOut_append]
    cases seg with
    | text s =>
      have hkept : Text.blankOut (ranges (n + s.length) segs) n s = s :=
        Text.blankOut_eq_self fun r hr => .inl (bounds_of_mem_ranges hr).1
      exact congrArg₂ _ hkept.symm (ih _)
    | definition s d =>
      have hblanked : Text.blankOut ((n, n + s.length) :: ranges (n + s.length) segs) n s =
          s.filter (· == '\n') :=
        Text.blankOut_eq_filter List.mem_cons_self (Nat.le_refl _) (Nat.le_refl _)
      have hbehind : Text.blankOut ((n, n + s.length) :: ranges (n + s.length) segs) (n + s.length)
          (segs.flatMap source) = MacroTable.blankedText segs :=
        (Text.blankOut_cons (Nat.le_refl _)).trans (ih _).symm
      exact congrArg₂ _ hblanked.symm hbehind.symm

end Segment

section Scan

variable {file s : Text}

/-- Where code starts in a text, on its first line or behind it. -/
theorem Text.trimStart_eq_cutLine (s : Text) :
    trimStart s = if trimStart (cutLine s).1 = [] then trimStart (cutLine s).2
      else trimStart (cutLine s).1 ++ (cutLine s).2 := by
  have happend := congrArg trimStart (append_cutLine s)
  rw [← happend]
  split
  · rename_i hblank
    exact trimStart_append (List.dropWhile_eq_nil_iff.1 hblank)
  · rename_i hne
    exact dropWhile_append_of_ne_nil hne

namespace MacroDef

/-- The ranges of the definitions of a text, if `steps` suffice to find them. The text starts at
position `n`. Each step looks at the line that the text starts with, or at what is left of it behind
a definition: the scan goes on behind the definition that starts there, or else behind the line. -/
def scan? : Nat → Nat → Text → Option (Except Text (List (Nat × Nat)))
  | _, _, [] => some (.ok [])
  | 0, _, _ :: _ => none
  | steps + 1, n, c :: s =>
    let line := (Text.cutLine (c :: s)).1
    let behind := (Text.cutLine (c :: s)).2
    let code := Text.trimStart line
    match if code = [] then .nothing else find (code ++ behind) with
    | .definition _ _ _ rest =>
      let stop := n + ((c :: s).length - rest.length)
      (scan? steps stop rest).map (·.map ((n + (line.length - code.length), stop) :: ·))
    | .unterminated name => some (.error name)
    | .nothing => scan? steps (n + line.length) behind

end MacroDef

variable {n : Nat} {name params body rest : Text}

theorem MacroDef.length_lt_of_find
    (hf : find (Text.trimStart s) = .definition name params body rest) :
    rest.length < (Text.trimStart s).length :=
  (isSuffix_of_find_eq_definition hf).length_le

theorem map_ranges_of_definition
    (hf : MacroDef.find (Text.trimStart s) = .definition name params body rest) :
    (segments file s).map (Segment.ranges n) =
      ((segments file rest).map (Segment.ranges (n + (s.length - rest.length)))).map
        ((n + (s.length - (Text.trimStart s).length), n + (s.length - rest.length)) :: ·) := by
  obtain ⟨head, hhead, hspells⟩ := MacroDef.exists_spells hf
  obtain ⟨lead, hlead, hblank⟩ := Text.exists_append_trimStart s
  have hlength := congrArg List.length hlead
  rw [List.length_append] at hlength
  have hstart : s.length - (Text.trimStart s).length = lead.length := by omega
  have hstop : s.length - rest.length = lead.length + (head ++ ['}']).length := by
    have := congrArg List.length hhead
    simp only [List.length_append, List.length_cons, List.length_nil] at this ⊢
    omega
  rw [hstart, hstop, ← Nat.add_assoc]
  conv_lhs => rw [hlead, hhead, segments_definition hblank hspells]
  cases segments file rest <;> rfl

/-- A blank line in front of a text moves the ranges. -/
theorem map_ranges_of_blank (hs : s ≠ []) (hblank : Text.trimStart (Text.cutLine s).1 = []) :
    (segments file s).map (Segment.ranges n) = (segments file (Text.cutLine s).2).map
      (Segment.ranges (n + (Text.cutLine s).1.length)) := by
  have hcode := Text.trimStart_eq_cutLine s
  rw [if_pos hblank] at hcode
  cases hf : MacroDef.find (Text.trimStart s) with
  | nothing =>
    rw [segments_of_nothing hs hf]
    cases segments file (Text.cutLine s).2 <;> rfl
  | unterminated name =>
    rw [segments_of_unterminated hf, segments_of_unterminated (hcode ▸ hf)]
    rfl
  | definition name params body rest =>
    have hlength := congrArg List.length (Text.append_cutLine s)
    rw [List.length_append] at hlength
    have hcodeLength : (Text.trimStart (Text.cutLine s).2).length ≤ (Text.cutLine s).2.length :=
      (List.dropWhile_suffix _).length_le
    have hbehind : MacroDef.find (Text.trimStart (Text.cutLine s).2) =
        .definition name params body rest := hcode ▸ hf
    have hrest := MacroDef.length_lt_of_find hbehind
    have hstart : n + (s.length - (Text.trimStart s).length) = n + (Text.cutLine s).1.length +
        ((Text.cutLine s).2.length - (Text.trimStart (Text.cutLine s).2).length) := by
      rw [hcode]
      omega
    have hstop : n + (s.length - rest.length) = n + (Text.cutLine s).1.length +
        ((Text.cutLine s).2.length - rest.length) := by
      omega
    rw [map_ranges_of_definition hf, map_ranges_of_definition hbehind, hstart, hstop]

/-- Going line by line, the scan finds the ranges of the definitions, and it is over after as many
steps as the text has characters. -/
theorem MacroDef.scan?_eq (file : Text) {steps n : Nat} {s : Text} (hsteps : s.length ≤ steps) :
    scan? steps n s = some ((segments file s).map (Segment.ranges n)) := by
  induction steps generalizing n s with
  | zero =>
    obtain rfl := List.length_eq_zero_iff.1 (Nat.le_zero.1 hsteps)
    rw [segments, dif_pos rfl]
    rfl
  | succ steps ih =>
    cases hs : s with
    | nil =>
      rw [segments, dif_pos rfl]
      rfl
    | cons c t =>
    rw [scan?, ← hs]
    have hne : s ≠ [] := by simp [hs]
    have hbehind : (Text.cutLine s).2.length ≤ steps := by
      have := Text.length_cutLine_lt hne
      omega
    dsimp only
    by_cases hblank : Text.trimStart (Text.cutLine s).1 = []
    · rw [if_pos hblank, map_ranges_of_blank hne hblank]
      exact ih hbehind
    have hcode := Text.trimStart_eq_cutLine s
    rw [if_neg hblank] at hcode ⊢
    rw [← hcode]
    cases hf : find (Text.trimStart s) with
    | nothing =>
      dsimp only
      rw [segments_of_nothing hne hf, ih hbehind]
      cases segments file (Text.cutLine s).2 <;> rfl
    | unterminated name =>
      rw [segments_of_unterminated hf]
      rfl
    | definition name params body rest =>
      have hrest := length_lt_of_find hf
      have hcodeLength : (Text.trimStart s).length ≤ s.length :=
        (List.dropWhile_suffix _).length_le
      -- the line and the text have the same white space in front of the code
      have hstart : (Text.cutLine s).1.length - (Text.trimStart (Text.cutLine s).1).length =
          s.length - (Text.trimStart s).length := by
        have hlength := congrArg List.length (Text.append_cutLine s)
        rw [List.length_append] at hlength
        rw [hcode, List.length_append]
        omega
      dsimp only
      rw [hstart, ih (by omega), map_ranges_of_definition hf]
      rfl

end Scan

/-- The text ends with a line, or with the last one of the ranges. -/
def Text.EndsPart (ranges : List (Nat × Nat)) (s : Text) : Prop :=
  EndsLine s ∨ ∃ r ∈ ranges.getLast?, r.2 = s.length

/-- Code starts at position `a` of the text: the character there is the first one that is not white
space on a line, or on what is left of a line behind the last one of the ranges. -/
def Text.IsCodeStart (s : Text) (ranges : List (Nat × Nat)) (a : Nat) : Prop :=
  (∃ p ≤ a, EndsPart ranges (s.take p) ∧ ∀ c ∈ s.extract p a, isBlank c ∧ c ≠ '\n') ∧
    ∃ c ∈ s[a]?, isBlank c = false

/-- The definition `d` of a file is read at the start of the range, and what is left behind it is
the text behind the range. -/
def MacroDef.IsRead (file s : Text) (r : Nat × Nat) (d : MacroDef) : Prop :=
  ∃ name params body, find (s.drop r.1) = .definition name params body (s.drop r.2) ∧
    d = .ofSource file name params body

/-- The definitions of a text and the ranges where they stand. -/
structure MacroDef.AreLocated (file s : Text) (ranges : List (Nat × Nat)) (ds : List MacroDef) :
    Prop where
  reads : List.Forall₂ (IsRead file s) ranges ds
  /-- The ranges are not empty and lie in the text. -/
  bounds : ∀ r ∈ ranges, r.1 < r.2 ∧ r.2 ≤ s.length
  ordered : ranges.Pairwise fun r r' => r.2 ≤ r'.1
  /-- A definition starts with the keyword and ends with a brace. -/
  spelled : ∀ r ∈ ranges, ∃ inner, s.extract r.1 r.2 = keyword ++ inner ++ ['}']
  /-- It starts where code starts on a line, or behind the definition in front of it. -/
  starts : ∀ before r after, ranges = before ++ r :: after → s.IsCodeStart before r.1
  /-- Wherever else code starts outside of the definitions, there is none. -/
  complete : ∀ before after, ranges = before ++ after → ∀ a, s.IsCodeStart before a →
    (∀ r ∈ before, r.2 ≤ a) → (∀ r ∈ after, a < r.1) → find (s.drop a) = .nothing

section Location

variable {file s t u v front : Text} {segs : List Segment} {earlier before after : List (Nat × Nat)}
  {r : Nat × Nat} {a : Nat}

theorem Text.isCodeStart_append (hu : EndsPart earlier u)
    (hv : ∀ c ∈ v, isBlank c) (hline : '\n' ∉ v) (ht : ∃ c ∈ t.head?, isBlank c = false) :
    (u ++ (v ++ t)).IsCodeStart earlier (u.length + v.length) := by
  refine ⟨⟨u.length, Nat.le_add_right _ _, by rwa [List.take_left], ?_⟩, ?_⟩
  · intro c hc
    have hc : c ∈ v := by simpa [List.extract] using hc
    exact ⟨hv c hc, ne_of_mem_of_not_mem hc hline⟩
  · rw [List.getElem?_append_right (Nat.le_add_right _ _), Nat.add_sub_cancel_left,
      List.getElem?_append_right (Nat.le_refl _), Nat.sub_self, ← List.head?_eq_getElem?]
    exact ht

theorem Text.EndsPart.exists_append (hs : EndsPart earlier front) (w : Text) :
    ∃ u v, front ++ w = u ++ v ∧ '\n' ∉ v ∧ v ⊆ w ∧ EndsPart earlier u := by
  obtain ⟨x, v, rfl, hx, hv⟩ := exists_append_lastLine w
  by_cases hnil : x = []
  · subst hnil
    exact ⟨front, v, rfl, hv, by simp, hs⟩
  · refine ⟨front ++ x, v, by simp, hv, by simp, .inl (.inr ?_)⟩
    rw [List.getLast?_append_of_ne_nil _ hnil]
    exact hx.resolve_left hnil

theorem MacroDef.Spells.exists_head? {head name params body : Text}
    (h : Spells head name params body) (rest : Text) :
    ∃ c ∈ (head ++ '}' :: rest).head?, Text.isBlank c = false := by
  have hfirst := List.head?_dropWhile_not Text.isBlank (head ++ '}' :: rest)
  rw [← Text.trimStart, h.trimStart] at hfirst
  cases head with
  | nil => exact ⟨_, rfl, hfirst⟩
  | cons c head => exact ⟨c, rfl, hfirst⟩

/-- Each definition is read where it stands. -/
theorem forall₂_isRead_of_segments (h : segments file s = .ok segs) (front : Text) :
    List.Forall₂ (MacroDef.IsRead file (front ++ s)) (Segment.ranges front.length segs)
      (segs.filterMap Segment.definition?) := by
  induction s using WellFounded.induction (measure List.length).wf generalizing segs front with
  | _ s ih =>
    cases cuts_of_segments h with
    | nil => exact .nil
    | @definition lead head name params body rest later hlead hspells hlater =>
      have hlt : rest.length < (lead ++ (head ++ '}' :: rest)).length := by simp; omega
      have hrest := ih rest hlt hlater (front ++ lead ++ (head ++ ['}']))
      have hwhole : front ++ lead ++ (head ++ ['}']) ++ rest =
          front ++ (lead ++ (head ++ '}' :: rest)) := by simp
      rw [hwhole, List.length_append, List.length_append] at hrest
      refine .cons ⟨name, params, body, ?_, rfl⟩ hrest
      have hstart : (front ++ (lead ++ (head ++ '}' :: rest))).drop
          (front.length + lead.length) = head ++ '}' :: rest := by
        rw [← List.append_assoc, ← List.length_append, List.drop_left]
      have hend : (front ++ (lead ++ (head ++ '}' :: rest))).drop
          (front.length + lead.length + (head ++ ['}']).length) = rest := by
        rw [← hwhole, ← List.length_append, ← List.length_append, List.drop_left]
      dsimp only
      rw [hstart, hend]
      exact hspells.find rest
    | @line s later hs _ hlater =>
      have hrest := ih _ (Text.length_cutLine_lt hs) hlater (front ++ (Text.cutLine s).1)
      rwa [List.append_assoc, Text.append_cutLine, List.length_append] at hrest

/-- A definition starts where code starts on a line, or behind the definition in front of it. -/
theorem isCodeStart_of_segments (h : segments file s = .ok segs)
    (hfront : Text.EndsPart earlier front)
    (hranges : Segment.ranges front.length segs = before ++ r :: after) :
    (front ++ s).IsCodeStart (earlier ++ before) r.1 := by
  induction s using WellFounded.induction (measure List.length).wf
    generalizing segs front earlier before with
  | _ s ih =>
    cases cuts_of_segments h with
    | nil => simp [Segment.ranges] at hranges
    | @definition lead head name params body rest later hlead hspells hlater =>
      rw [Segment.ranges, Segment.ranges] at hranges
      cases before with
      | nil =>
        obtain ⟨rfl, -⟩ := List.cons.inj hranges
        obtain ⟨u, v, huv, hline, hsub, hu⟩ := hfront.exists_append lead
        have hstart := Text.isCodeStart_append hu (fun c hc => hlead c (hsub hc)) hline
          (hspells.exists_head? rest)
        rw [← List.append_assoc, ← huv, List.append_assoc, ← List.length_append, ← huv,
          List.length_append] at hstart
        rwa [List.append_nil]
      | cons r₀ before =>
        have hlt : rest.length < (lead ++ (head ++ '}' :: rest)).length := by simp; omega
        rw [← List.length_append, ← List.length_append] at hranges
        obtain ⟨hr₀, hlaterRanges⟩ := List.cons.inj hranges
        have hbehind : r₀.2 = (front ++ lead ++ (head ++ ['}'])).length := hr₀ ▸ rfl
        have hlast : r₀ ∈ (earlier ++ [r₀]).getLast? := List.getLast?_concat
        have hrest := ih rest hlt hlater (.inr ⟨r₀, hlast, hbehind⟩) hlaterRanges
        simpa using hrest
    | @line s later hs _ hlater =>
      rw [Segment.ranges, ← List.length_append] at hranges
      have hnext : Text.EndsLine (front ++ (Text.cutLine s).1) := by
        rcases Text.cutLine_cases s with ⟨-, hcut⟩ | ⟨l, t, -, -, hcut⟩
        · -- nothing stands behind the last line
          rw [hcut, segments, dif_pos rfl] at hlater
          cases hlater
          simp [Segment.ranges] at hranges
        · exact .inr (by simp [hcut])
      have hpart : Text.EndsPart earlier (front ++ (Text.cutLine s).1) := .inl hnext
      have hrest := ih _ (Text.length_cutLine_lt hs) hlater hpart hranges
      rwa [List.append_assoc, Text.append_cutLine] at hrest

theorem Text.newline_notMem_take {k : Nat} (hk : k < (cutLine s).1.length) : '\n' ∉ s.take k := by
  rcases cutLine_cases s with ⟨hs, -⟩ | ⟨l, t, rfl, hl, hcut⟩
  · exact fun hmem => hs (List.mem_of_mem_take hmem)
  · rw [hcut, List.length_append, List.length_singleton] at hk
    rw [List.take_append_of_le_length (by omega)]
    exact fun hmem => hl (List.mem_of_mem_take hmem)

theorem Text.EndsLine.le_length {p : Nat} (h : EndsLine ((front ++ s).take p))
    (hp : p < front.length + (cutLine s).1.length) : p ≤ front.length := by
  by_contra hlt
  have htake : (front ++ s).take p = front ++ s.take (p - front.length) := by
    rw [List.take_append, List.take_of_length_le (by omega)]
  have hne : s.take (p - front.length) ≠ [] := by
    have := congrArg List.length (append_cutLine s)
    rw [List.length_append] at this
    refine List.ne_nil_of_length_pos ?_
    rw [List.length_take]
    omega
  rw [htake] at h
  have hlast := (h.of_append).resolve_left hne
  exact newline_notMem_take (by omega) (List.mem_of_getLast? hlast)

theorem Text.EndsPart.le_length {ranges : List (Nat × Nat)} {p : Nat}
    (h : EndsPart ranges ((front ++ s).take p)) (hp : p < front.length + (cutLine s).1.length)
    (hranges : ∀ r ∈ ranges, r.2 ≤ front.length ∨ front.length + (cutLine s).1.length ≤ r.2) :
    p ≤ front.length := by
  rcases h with h | ⟨r, hr, hend⟩
  · exact h.le_length hp
  · have hlength := congrArg List.length (append_cutLine s)
    rw [List.length_append] at hlength
    rw [List.length_take, List.length_append, Nat.min_eq_left (by omega)] at hend
    have := hranges r (List.mem_of_getLast? hr)
    omega

/-- Behind blanks only, code starts where the text without leading white space does. -/
theorem Text.drop_eq_trimStart {p : Nat} (hp : p ≤ front.length) (ha : front.length ≤ a)
    (hblank : ∀ c ∈ (front ++ s).extract p a, isBlank c)
    (hcode : ∃ c ∈ (front ++ s)[a]?, isBlank c = false) : (front ++ s).drop a = trimStart s := by
  obtain ⟨k, rfl⟩ := Nat.exists_eq_add_of_le ha
  have hdrop : (front ++ s).drop (front.length + k) = s.drop k :=
    List.drop_length_add_append k
  have hbefore : ∀ c ∈ s.take k, isBlank c := by
    intro c hc
    refine hblank c ?_
    rw [List.extract, List.drop_append_of_le_length hp, List.take_append]
    refine List.mem_append_right _ ?_
    rwa [List.length_drop, show front.length + k - p - (front.length - p) = k by omega]
  obtain ⟨c, hc, hfalse⟩ := hcode
  have hhead : s.drop k = c :: s.drop (k + 1) := by
    rw [List.getElem?_append_right (Nat.le_add_right _ _), Nat.add_sub_cancel_left] at hc
    obtain ⟨hlt, rfl⟩ := List.getElem?_eq_some_iff.1 hc
    exact List.drop_eq_getElem_cons hlt
  calc (front ++ s).drop (front.length + k) = s.drop k := hdrop
    _ = trimStart (s.drop k) := by
      rw [hhead, trimStart, List.dropWhile_cons_of_neg (Bool.eq_false_iff.1 hfalse)]
    _ = trimStart s := by
      rw [← trimStart_append hbefore, List.take_append_drop]

theorem Text.IsCodeStart.drop_eq_trimStart {ranges : List (Nat × Nat)}
    (h : (front ++ s).IsCodeStart ranges a) (hfront : front.length ≤ a)
    (ha : a < front.length + (cutLine s).1.length)
    (hranges : ∀ r ∈ ranges, r.2 ≤ front.length ∨ front.length + (cutLine s).1.length ≤ r.2) :
    (front ++ s).drop a = trimStart s := by
  obtain ⟨⟨p, hpa, hp, hblank⟩, hcode⟩ := h
  have hle : p ≤ front.length := hp.le_length (by omega) hranges
  exact Text.drop_eq_trimStart hle hfront (fun c hc => (hblank c hc).1) hcode

/-- Wherever else code starts, no definition does. -/
theorem find_eq_nothing_of_isCodeStart (h : segments file s = .ok segs)
    (hearlier : ∀ r ∈ earlier, r.2 ≤ front.length)
    (hranges : Segment.ranges front.length segs = before ++ after)
    (hstart : (front ++ s).IsCodeStart (earlier ++ before) a) (hfront : front.length ≤ a)
    (hbefore : ∀ r ∈ before, r.2 ≤ a) (hafter : ∀ r ∈ after, a < r.1) :
    MacroDef.find ((front ++ s).drop a) = .nothing := by
  induction s using WellFounded.induction (measure List.length).wf
    generalizing segs front earlier before with
  | _ s ih =>
    cases cuts_of_segments h with
    | nil =>
      obtain ⟨-, c, hc, -⟩ := hstart
      rw [List.append_nil, List.getElem?_eq_none hfront] at hc
      cases hc
    | @definition lead head name params body rest later hlead hspells hlater =>
      rw [Segment.ranges, Segment.ranges, ← List.length_append, ← List.length_append] at hranges
      cases before with
      | nil =>
        -- in front of the definition there are blanks only
        have ha : a < (front ++ lead).length := hafter _ (hranges ▸ List.mem_cons_self)
        obtain ⟨-, c, hc, hfalse⟩ := hstart
        rw [← List.append_assoc, List.getElem?_append_left ha,
          List.getElem?_append_right hfront] at hc
        have hblank := hlead c (List.mem_of_getElem? hc)
        rw [hfalse] at hblank
        cases hblank
      | cons r₀ before =>
        obtain ⟨hr₀, hlaterRanges⟩ := List.cons.inj hranges
        have hbehind : r₀.2 = (front ++ lead ++ (head ++ ['}'])).length := hr₀ ▸ rfl
        have hearlier' : ∀ r ∈ earlier ++ [r₀],
            r.2 ≤ (front ++ lead ++ (head ++ ['}'])).length := by
          intro r hr
          rcases List.mem_append.1 hr with hr | hr
          · have := hearlier r hr
            rw [List.append_assoc, List.length_append]
            omega
          · rw [List.mem_singleton.1 hr, hbehind]
        have hwhole : front ++ lead ++ (head ++ ['}']) ++ rest =
            front ++ (lead ++ (head ++ '}' :: rest)) := by simp
        have hlt : rest.length < (lead ++ (head ++ '}' :: rest)).length := by simp; omega
        obtain ⟨hle, hbefore⟩ := List.forall_mem_cons.1 hbefore
        rw [← hwhole] at hstart ⊢
        refine ih rest hlt hlater hearlier' hlaterRanges ?_ (hbehind ▸ hle) hbefore
        simpa using hstart
    | @line s later hs hnothing hlater =>
      rw [Segment.ranges, ← List.length_append] at hranges
      have hwhole : front ++ (Text.cutLine s).1 ++ (Text.cutLine s).2 = front ++ s := by
        rw [List.append_assoc, Text.append_cutLine]
      by_cases ha : (front ++ (Text.cutLine s).1).length ≤ a
      · have hearlier' : ∀ r ∈ earlier, r.2 ≤ (front ++ (Text.cutLine s).1).length := by
          intro r hr
          have := hearlier r hr
          rw [List.length_append]
          omega
        rw [← hwhole] at hstart ⊢
        exact ih _ (Text.length_cutLine_lt hs) hlater hearlier' hranges hstart ha hbefore
      · -- no range ends on the line, so the code that starts on it is what was looked at
        have hbehind : ∀ r ∈ earlier ++ before,
            r.2 ≤ front.length ∨ front.length + (Text.cutLine s).1.length ≤ r.2 := by
          intro r hr
          refine (List.mem_append.1 hr).imp (hearlier r) fun hr => ?_
          have hmem : r ∈ Segment.ranges (front ++ (Text.cutLine s).1).length later :=
            hranges ▸ List.mem_append_left _ hr
          have hbounds := Segment.bounds_of_mem_ranges hmem
          rw [List.length_append] at hbounds
          omega
        rw [List.length_append, Nat.not_le] at ha
        rw [hstart.drop_eq_trimStart hfront ha hbehind]
        exact hnothing

theorem MacroDef.exists_keyword_of_find {name params body rest : Text}
    (h : find s = .definition name params body rest) :
    ∃ inner, s = keyword ++ inner ++ '}' :: rest := by
  unfold find at h
  split at h
  · cases h
  · rename_i behind hbind
    split at h <;> cases h
    rename_i hcut
    obtain ⟨u, hu, hheader⟩ := Option.bind_eq_some_iff.1 hbind
    obtain ⟨inner, hinner⟩ : '}' :: rest <:+ u :=
      ((Text.isSuffix_of_cut?_eq_some hcut).trans (List.suffix_cons _ _)).trans
        (isSuffix_of_header?_eq_some hheader)
    refine ⟨inner, ?_⟩
    rw [Text.dropPrefix?_eq_some_iff.1 hu, ← hinner, List.append_assoc]

/-- What is read as a definition is not empty, and is spelled as one. -/
theorem MacroDef.IsRead.exists_spelled {d : MacroDef} (h : IsRead file s r d)
    (hend : r.2 ≤ s.length) :
    r.1 < r.2 ∧ ∃ inner, s.extract r.1 r.2 = keyword ++ inner ++ ['}'] := by
  obtain ⟨name, params, body, hfind, -⟩ := h
  obtain ⟨inner, hinner⟩ := exists_keyword_of_find hfind
  have hlength := congrArg List.length hinner
  simp only [List.length_drop, List.length_append, List.length_cons] at hlength
  refine ⟨by omega, inner, ?_⟩
  have htake : r.2 - r.1 = (keyword ++ inner ++ ['}']).length := by
    simp only [List.length_append, List.length_cons, List.length_nil]
    omega
  have hsplit : keyword ++ inner ++ '}' :: s.drop r.2 =
      keyword ++ inner ++ ['}'] ++ s.drop r.2 := by simp
  rw [List.extract, hinner, htake, hsplit, List.take_left]

theorem areLocated_of_segments (h : segments file s = .ok segs) :
    MacroDef.AreLocated file s (Segment.ranges 0 segs) (segs.filterMap Segment.definition?) := by
  have hreads : List.Forall₂ (MacroDef.IsRead file s) (Segment.ranges 0 segs)
      (segs.filterMap Segment.definition?) := forall₂_isRead_of_segments h []
  have hspelled : ∀ r ∈ Segment.ranges 0 segs, (r.1 < r.2 ∧ r.2 ≤ s.length) ∧
      ∃ inner, s.extract r.1 r.2 = MacroDef.keyword ++ inner ++ ['}'] := by
    intro r hr
    obtain ⟨-, -, hend⟩ := Segment.bounds_of_mem_ranges hr
    rw [flatMap_source_of_segments h, Nat.zero_add] at hend
    obtain ⟨d, -, hread⟩ := exists_mem_of_forall₂ hreads.flip hr
    obtain ⟨hlt, hspelled⟩ := MacroDef.IsRead.exists_spelled hread hend
    exact ⟨⟨hlt, hend⟩, hspelled⟩
  have hnil : Text.EndsPart [] [] := .inl (.inl rfl)
  have hnone : ∀ r ∈ ([] : List (Nat × Nat)), r.2 ≤ ([] : Text).length := by simp
  exact {
    reads := hreads
    bounds := fun r hr => (hspelled r hr).1
    ordered := Segment.pairwise_ranges 0 segs
    spelled := fun r hr => (hspelled r hr).2
    starts := fun before r after hranges => isCodeStart_of_segments h hnil hranges
    complete := fun before after hranges a hstart =>
      find_eq_nothing_of_isCodeStart h hnone hranges hstart (Nat.zero_le a) }

end Location

/-- Blanking keeps the line structure. A scan line by line is over after as many steps as the text
has characters, and the ranges it finds are where the definitions of the text stand: apart from each
other and in order, each where code starts on a line or behind the definition in front of it, from
the keyword to a closing brace. What is left is the text without the characters of the ranges, line
feeds apart, and each line of it is the line of that number of the text without some characters. -/
theorem keepsLines_of_segments {file s : Text} {segs : List Segment}
    (h : segments file s = .ok segs) :
    MacroDef.scan? s.length 0 s = some (.ok (Segment.ranges 0 segs)) ∧
      MacroDef.AreLocated file s (Segment.ranges 0 segs) (segs.filterMap Segment.definition?) ∧
      MacroTable.blankedText segs = Text.blankOut (Segment.ranges 0 segs) 0 s ∧
      List.Forall₂ List.Sublist (Text.pieces (· == '\n') (MacroTable.blankedText segs))
        (Text.pieces (· == '\n') s) := by
  refine ⟨?_, areLocated_of_segments h, ?_, (thins_blankedText h).forall₂_pieces⟩
  · rw [MacroDef.scan?_eq file (Nat.le_refl _), h]
    rfl
  · have hblanked := Segment.blankedText_eq_blankOut 0 segs
    rwa [flatMap_source_of_segments h] at hblanked

/-- Two definitions on a line with code behind them, one over two lines with braces in its literals,
and two lines that only look as if a definition started there. -/
theorem keepsLines_of_segments_same_line :
    let text : Text :=
      " macro a() ".toList ++ '{' :: "\n  ret\n".toList ++ '}' :: " macro b(x, y) ".toList ++
        '{' :: " x y ".toList ++ '}' :: "\tjmp end\r\n\nmacro c\nmacro (d) ".toList ++
        '{' :: "\n\u3000macro e(p,\n\"".toList ++ '}' :: "\") ".toList ++
        '{' :: " ldstr p, \"".toList ++ '}' :: "\" \nret".toList
    let left : Text :=
      " \n\n \tjmp end\r\n\nmacro c\nmacro (d) ".toList ++ '{' :: "\n\u3000\n\" \nret".toList
    let ranges := [(1, 20), (21, 42), (74, 103)]
    ∃ segs, segments "f.s".toList text = .ok segs ∧ Segment.ranges 0 segs = ranges ∧
      MacroDef.scan? text.length 0 text = some (.ok ranges) ∧
      MacroDef.AreLocated "f.s".toList text ranges (segs.filterMap Segment.definition?) ∧
      MacroTable.blankedText segs = left ∧
      List.Forall₂ List.Sublist (Text.pieces (· == '\n') left) (Text.pieces (· == '\n') text) := by
  intro text left ranges
  have hmap : (segments "f.s".toList text).map (Segment.ranges 0) = .ok ranges := by
    decide +kernel
  obtain ⟨segs, hsegs, hranges⟩ := map_eq_ok_iff.1 hmap
  obtain ⟨hscan, hlocated, hblanked, hlines⟩ := keepsLines_of_segments hsegs
  rw [hranges] at hscan hlocated hblanked
  have hleft : MacroTable.blankedText segs = left := hblanked.trans (by decide +kernel)
  rw [hleft] at hlines
  exact ⟨segs, hsegs, hranges, hscan, hlocated, hleft, hlines⟩

end RegisterMachine
