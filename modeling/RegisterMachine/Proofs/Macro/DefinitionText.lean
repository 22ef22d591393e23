import RegisterMachine.Proofs.Macro.Insertion

/-!
# Definitions as text

A definition is written with its name, its parameters and the lines of its body. It is read back as
it was written exactly if no line of the body holds a closing brace: the first one ends the body,
also within a literal, and what stands behind it is read as if the definition were over
(`MacroDef.segments_text_iff`).
-/

namespace RegisterMachine

namespace Text

variable {p : Char → Bool} {c : Char} {s t a : Text} {ws ls : List Text}

theorem lines_unlines_append (h : ∀ l ∈ ls, '\n' ∉ l) (t : Text) :
    lines (unlines ls ++ t) = ls.map dropReturn ++ lines t := by
  induction ls with
  | nil => rfl
  | cons l ls ih =>
    obtain ⟨hl, hls⟩ := List.forall_mem_cons.1 h
    rw [unlines_cons, List.append_assoc, List.cons_append, lines_append_newline hl, ih hls]
    rfl

/-- Texts without commas are cut apart at the commas between them. -/
theorem map_trim_pieces_join (hne : ws ≠ []) (hws : ∀ w ∈ ws, ',' ∉ w)
    (htrim : ∀ w ∈ ws, trim w = w) :
    (pieces (· == ',') (join [',', ' '] ws)).map trim = ws := by
  have hkept (w : Text) (hw : ',' ∉ w) : ∀ c ∈ w, (c == ',') = false := by
    intro c hc
    simpa using ne_of_mem_of_not_mem hc hw
  exact map_trim_of_join (fun t => rfl) (fun w hw => pieces_of_forall (hkept w (hws w hw)))
    (fun w hw t => pieces_append_cons (hkept w (hws w hw)) rfl t) htrim hne

/-- Nonempty lines without white space at their ends are the nonblank lines of what is written. -/
theorem filter_map_trim_lines (h : ∀ l ∈ ls, l ≠ [] ∧ trim l = l ∧ '\n' ∉ l) (hs : '\n' ∉ s) :
    ((lines ('\n' :: (unlines ls ++ s))).map trim).filter (!·.isEmpty) =
      ls ++ [trim s].filter (!·.isEmpty) := by
  have hls : (ls.map dropReturn).map trim = ls := by
    rw [List.map_map]
    refine (List.map_congr_left fun l hl => ?_).trans (List.map_id ls)
    exact (trim_dropReturn l).trans (h l hl).2.1
  have hfilter : ls.filter (!·.isEmpty) = ls :=
    List.filter_eq_self.2 fun l hl => by simp [(h l hl).1]
  have hend : ((lines s).map trim).filter (!·.isEmpty) = [trim s].filter (!·.isEmpty) := by
    by_cases hne : s = []
    · subst hne
      rfl
    · rw [lines_of_notMem hs hne, List.map_singleton]
  calc ((lines ('\n' :: (unlines ls ++ s))).map trim).filter (!·.isEmpty)
      = (((ls.map dropReturn ++ lines s)).map trim).filter (!·.isEmpty) := by
        rw [lines, lines_unlines_append fun l hl => (h l hl).2.2]
        rfl
    _ = ls ++ [trim s].filter (!·.isEmpty) := by
        rw [List.map_append, List.filter_append, hls, hfilter, hend]

end Text

namespace MacroDef

variable {d : MacroDef} {body rest : Text}

/-- A definition whose parts can be written: the name and the parameters are identifiers, and the
lines of the body are not blank, have no white space at their ends, and are single lines. -/
structure WellFormed (d : MacroDef) : Prop where
  name : Text.IsIdent d.name
  params : ∀ p ∈ d.params, Text.IsIdent p
  body : ∀ l ∈ d.body, l ≠ [] ∧ Text.trim l = l ∧ '\n' ∉ l

/-- The definition up to its opening brace. -/
def head (d : MacroDef) : Text :=
  keyword ++ ' ' :: (d.name ++ '(' :: (Text.join [',', ' '] d.params ++ [')', ' ', '{']))

/-- The definition with every line of its body on a line. -/
def text (d : MacroDef) : Text :=
  d.head ++ '\n' :: (Text.unlines d.body ++ ['}'])

theorem notMem_of_isIdent {c : Char} (hc : Text.isIdentRest c = false) {p : Text}
    (h : Text.IsIdent p) : c ∉ p := by
  intro hmem
  have hrest := h.isIdentRest c hmem
  rw [hc] at hrest
  cases hrest

theorem notMem_join_params (h : d.WellFormed) : ')' ∉ Text.join [',', ' '] d.params := by
  intro hmem
  rcases Text.mem_of_mem_join hmem with hsep | ⟨p, hp, hmem⟩
  · exact absurd hsep (by decide)
  · exact notMem_of_isIdent (by decide) (h.params p hp) hmem

/-- Behind the keyword, the name and the parameters are read as they are written. -/
theorem header?_head (h : d.WellFormed) (rest : Text) :
    header? (' ' :: (d.name ++ '(' :: (Text.join [',', ' '] d.params ++
      ')' :: ' ' :: '{' :: rest))) = some (d.name, Text.join [',', ' '] d.params, rest) := by
  have hblank (t : Text) : (' ' :: (d.name ++ t)).dropWhile Text.isAsciiBlank = d.name ++ t := by
    obtain ⟨c, s, hname⟩ := List.exists_cons_of_ne_nil h.name.ne_nil
    have hc : Text.isAsciiBlank c ≠ true := by
      intro hascii
      have hrest := h.name.isIdentRest c (by simp [hname])
      have hfalse := Text.isBlank_eq_false_of_isIdentRest hrest
      rw [Text.isBlank_of_isAsciiBlank hascii] at hfalse
      cases hfalse
    rw [List.dropWhile_cons_of_pos (by decide), hname, List.cons_append,
      List.dropWhile_cons_of_neg hc]
  have hident (t : Text) : Text.ident? (d.name ++ '(' :: t) = some (d.name, '(' :: t) :=
    h.name.ident?_append_cons (by decide) t
  have hcut (t : Text) : Text.cut? ')' (Text.join [',', ' '] d.params ++ ')' :: t) =
      some (Text.join [',', ' '] d.params, t) := by
    rw [Text.cut?_append_of_notMem (notMem_join_params h)]
    simp [Text.cut?]
  -- the space behind the keyword has passed the guard
  refine Option.bind_eq_some_iff.2 ⟨_, (congrArg Text.ident? (hblank _)).trans (hident _), ?_⟩
  exact Option.bind_eq_some_iff.2 ⟨_, hcut _, rfl⟩

/-- The body is what stands in front of the first closing brace. -/
theorem find_head (h : d.WellFormed) (hbody : '}' ∉ body) (rest : Text) :
    find (d.head ++ '\n' :: (body ++ '}' :: rest)) =
      .definition d.name (Text.join [',', ' '] d.params) ('\n' :: body) rest := by
  have hprefix : Text.dropPrefix? keyword (d.head ++ '\n' :: (body ++ '}' :: rest)) =
      some (' ' :: (d.name ++ '(' :: (Text.join [',', ' '] d.params ++
        ')' :: ' ' :: '{' :: '\n' :: (body ++ '}' :: rest)))) :=
    Text.dropPrefix?_eq_some_iff.2 (by simp [head])
  have hcut : Text.cut? '}' ('\n' :: (body ++ '}' :: rest)) = some ('\n' :: body, rest) := by
    have hmem : '}' ∉ '\n' :: body := by simp [hbody]
    have hcut := Text.cut?_append_of_notMem (t := '}' :: rest) hmem
    simpa [Text.cut?] using hcut
  rw [find, hprefix, Option.bind_some, header?_head h]
  dsimp only
  rw [hcut]

theorem spells_head (h : d.WellFormed) (hbody : '}' ∉ body) :
    Spells (d.head ++ '\n' :: body) d.name (Text.join [',', ' '] d.params) ('\n' :: body) where
  trimStart t := rfl
  find t := by
    rw [List.append_assoc, List.cons_append]
    exact find_head h hbody t

/-- The parameters and the lines that are read are those that were written. -/
theorem ofSource_head (h : d.WellFormed) {before : List Text} {a : Text}
    (hbefore : before ⊆ d.body) (ha : '\n' ∉ a) :
    ofSource d.file d.name (Text.join [',', ' '] d.params) ('\n' :: (Text.unlines before ++ a)) =
      { d with body := before ++ [Text.trim a].filter (!·.isEmpty) } := by
  have hparams : ((Text.pieces (· == ',') (Text.join [',', ' '] d.params)).map Text.trim).filter
      (!·.isEmpty) = d.params := by
    by_cases hne : d.params = []
    · rw [hne]
      rfl
    · have hcomma (p : Text) (hp : p ∈ d.params) : ',' ∉ p :=
        notMem_of_isIdent (by decide) (h.params p hp)
      rw [Text.map_trim_pieces_join hne hcomma fun p hp => (h.params p hp).trim]
      exact List.filter_eq_self.2 fun p hp => by simp [(h.params p hp).ne_nil]
  have hbody := Text.filter_map_trim_lines (fun l hl => h.body l (hbefore hl)) ha
  simp only [ofSource, hparams, hbody]

theorem segments_head (h : d.WellFormed) {before : List Text} {a : Text}
    (hbefore : before ⊆ d.body) (ha : '\n' ∉ a) (hbraces : '}' ∉ Text.unlines before ++ a)
    (rest : Text) :
    segments d.file (d.head ++ '\n' :: (Text.unlines before ++ (a ++ '}' :: rest))) =
      (segments d.file rest).map fun later =>
        .text [] :: .definition (d.head ++ '\n' :: (Text.unlines before ++ (a ++ ['}'])))
          { d with body := before ++ [Text.trim a].filter (!·.isEmpty) } :: later := by
  have hlead : ∀ c ∈ ([] : Text), Text.isBlank c := by simp
  have hsegments : segments d.file
      ([] ++ (d.head ++ '\n' :: (Text.unlines before ++ a) ++ '}' :: rest)) = _ :=
    segments_definition hlead (spells_head h hbraces) rest
  rw [ofSource_head h hbefore ha] at hsegments
  simpa using hsegments

theorem notMem_unlines {ls : List Text} (h : ∀ l ∈ ls, '}' ∉ l) : '}' ∉ Text.unlines ls := by
  simpa [Text.unlines] using h

/-- The text of a definition, cut at a brace in its body. -/
theorem text_eq_of_append {before after : List Text} {a b : Text}
    (hbody : d.body = before ++ (a ++ '}' :: b) :: after) :
    d.text = d.head ++ '\n' :: (Text.unlines before ++
      (a ++ '}' :: (b ++ '\n' :: (Text.unlines after ++ ['}'])))) := by
  simp [text, hbody, Text.unlines]

/-- The first brace ends the body that is read, wherever it stands on its line. -/
theorem segments_text_of_append (h : d.WellFormed) {before after : List Text} {a b : Text}
    (hbody : d.body = before ++ (a ++ '}' :: b) :: after) (hbefore : ∀ l ∈ before, '}' ∉ l)
    (ha : '}' ∉ a) :
    segments d.file d.text =
      (segments d.file (b ++ '\n' :: (Text.unlines after ++ ['}']))).map fun later =>
        .text [] :: .definition (d.head ++ '\n' :: (Text.unlines before ++ (a ++ ['}'])))
          { d with body := before ++ [Text.trim a].filter (!·.isEmpty) } :: later := by
  obtain ⟨-, -, hline⟩ := h.body (a ++ '}' :: b) (by simp [hbody])
  have hsubset : before ⊆ d.body := hbody ▸ List.subset_append_left _ _
  have hbraces : '}' ∉ Text.unlines before ++ a := by simp [notMem_unlines hbefore, ha]
  rw [text_eq_of_append hbody]
  exact segments_head h hsubset (fun hmem => hline (List.mem_append_left _ hmem)) hbraces _

theorem segments_text (h : d.WellFormed) (hbraces : ∀ l ∈ d.body, '}' ∉ l) :
    segments d.file d.text = .ok [.text [], .definition d.text d] := by
  have hread := segments_head h (List.Subset.refl _) (a := []) (by simp)
    (by simp [notMem_unlines hbraces]) []
  have hnil : segments d.file [] = .ok [] := by rw [segments, dif_pos rfl]
  have hnone : [Text.trim []].filter (!·.isEmpty) = [] := rfl
  rw [hnil, hnone, List.append_nil] at hread
  simpa [text, Except.map] using hread

theorem forall_of_segments_text (h : d.WellFormed)
    (hread : segments d.file d.text = .ok [.text [], .definition d.text d]) :
    ∀ l ∈ d.body, '}' ∉ l := by
  by_contra hbrace
  -- the first line with a brace, and the first brace on it
  obtain ⟨l, hl⟩ : ∃ l, d.body.find? (fun l => decide ('}' ∈ l)) = some l := by
    rw [← Option.isSome_iff_exists, List.find?_isSome]
    simpa using hbrace
  obtain ⟨hmem, before, after, hbody, hbefore⟩ := List.find?_eq_some_iff_append.1 hl
  obtain ⟨a, b, rfl, ha⟩ := List.eq_append_cons_of_mem (of_decide_eq_true hmem)
  rw [segments_text_of_append h hbody (by simpa using hbefore) ha] at hread
  obtain ⟨later, -, heq⟩ := map_eq_ok_iff.1 hread
  -- what is cut off ends at this brace, in front of the end of the text
  have hsource : d.head ++ '\n' :: (Text.unlines before ++ (a ++ ['}'])) = d.text := by
    injection heq with _ htail
    injection htail with hdefinition
    injection hdefinition
  have hlength := congrArg List.length hsource
  rw [text_eq_of_append hbody] at hlength
  simp only [List.length_append, List.length_cons, List.length_nil] at hlength
  omega

/-- A definition is read back from its text exactly if no line of its body holds a closing brace,
in a literal or not. Otherwise the body that is read ends at the first one, and the text behind this
brace is cut on its own. -/
theorem segments_text_iff (d : MacroDef) (h : d.WellFormed) :
    (segments d.file d.text = .ok [.text [], .definition d.text d] ↔ ∀ l ∈ d.body, '}' ∉ l) ∧
      ∀ before a b after, d.body = before ++ (a ++ '}' :: b) :: after →
        (∀ l ∈ before, '}' ∉ l) → '}' ∉ a →
        segments d.file d.text =
          (segments d.file (b ++ '\n' :: (Text.unlines after ++ ['}']))).map fun later =>
            .text [] :: .definition (d.head ++ '\n' :: (Text.unlines before ++ (a ++ ['}'])))
              { d with body := before ++ [Text.trim a].filter (!·.isEmpty) } :: later := by
  refine ⟨⟨forall_of_segments_text h, segments_text h⟩, ?_⟩
  intro before a b after hbody hbefore ha
  exact segments_text_of_append h hbody hbefore ha

/-- A literal may hold what separates or ends other things. -/
theorem segments_text_iff_load :
    let d : MacroDef := ⟨"load".toList, ["dest".toList, "src".toList],
      ["ldstr dest, \"a), (b; c\"".toList, "mov src, dest".toList], "main.s".toList⟩
    d.WellFormed ∧ segments d.file d.text = .ok [.text [], .definition d.text d] := by
  intro d
  have h : d.WellFormed := ⟨by decide, by decide, by decide⟩
  exact ⟨h, (segments_text_iff d h).1.2 (by decide)⟩

/-- The characters of a text outside of its literals. -/
def unquoted (inLiteral : Bool) : Text → Text
  | [] => []
  | c :: s =>
    if c = '"' then unquoted (!inLiteral) s
    else if inLiteral then unquoted true s
    else c :: unquoted false s

/-- A brace in a closed literal ends the body as well. -/
theorem exists_segments_text_ne :
    ∃ d : MacroDef, d.WellFormed ∧
      (∀ l ∈ d.body, l.count '"' % 2 = 0 ∧ '}' ∉ unquoted false l) ∧
      segments d.file d.text ≠ .ok [.text [], .definition d.text d] := by
  let d : MacroDef := ⟨"m".toList, [], ["ldstr R0, ".toList ++ ['"', '}', '"']], "main.s".toList⟩
  have h : d.WellFormed := ⟨by decide, by decide, by decide⟩
  refine ⟨d, h, by decide, fun hread => ?_⟩
  have hbraces := forall_of_segments_text h hread
  exact absurd hbraces (by decide)

end MacroDef

end RegisterMachine
