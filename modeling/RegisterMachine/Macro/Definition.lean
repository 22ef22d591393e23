import RegisterMachine.Assembly.Error
import RegisterMachine.Source.File

/-!
# Macro definitions

A definition `macro NAME(PARAMS) { BODY }` starts at the first character of a line that is not
white space, or likewise in the rest of a line after another definition. It may span lines; its
header ends at the first closing parenthesis and its body at the first closing brace. `segments`
cuts a text into definitions and the text between them, and loses nothing: the sources of the
segments, joined, are the text (`flatMap_source_of_segments`).
-/

namespace RegisterMachine

structure MacroDef where
  name : Text
  params : List Text
  body : List Text
  /-- The file that holds the definition. -/
  file : Text
  deriving DecidableEq, Repr

namespace Text

/-- The identifier at the start of a text and what follows it. -/
def ident? : Text → Option (Text × Text)
  | [] => none
  | c :: s =>
    if isIdentStart c then some (c :: s.takeWhile isIdentRest, s.dropWhile isIdentRest) else none

theorem isSuffix_of_cut?_eq_some {c : Char} {s a b : Text} (h : cut? c s = some (a, b)) :
    c :: b <:+ s := by
  obtain ⟨rfl, -⟩ := eq_of_cut?_eq_some h
  exact List.suffix_append a _

theorem append_of_ident?_eq_some {s a b : Text} (h : ident? s = some (a, b)) : a ++ b = s := by
  cases s with
  | nil => simp [ident?] at h
  | cons c s =>
    simp only [ident?] at h
    split at h
    · simp only [Option.some.injEq, Prod.mk.injEq] at h
      obtain ⟨rfl, rfl⟩ := h
      simp [List.takeWhile_append_dropWhile]
    · simp at h

theorem isSuffix_of_ident?_eq_some {s a b : Text} (h : ident? s = some (a, b)) : b <:+ s :=
  ⟨a, append_of_ident?_eq_some h⟩

end Text

namespace MacroDef

def keyword : Text :=
  ['m', 'a', 'c', 'r', 'o']

/-- What stands at a place where a definition may start. -/
inductive Found where
  | nothing
  | unterminated (name : Text)
  /-- A definition, and the text behind its closing brace. -/
  | definition (name params body rest : Text)

/-- Reads what follows the keyword up to the opening brace: white space, the name, and the
parameters in parentheses. Returns the name, the text of the parameters, and what follows the
brace. -/
def header? (s : Text) : Option (Text × Text × Text) := do
  let c :: _ := s | none
  guard (Text.isAsciiBlank c)
  let (name, s) ← Text.ident? (s.dropWhile Text.isAsciiBlank)
  let '(' :: s := s.dropWhile Text.isAsciiBlank | none
  let (params, s) ← Text.cut? ')' s
  let '{' :: s := s.dropWhile Text.isAsciiBlank | none
  return (name, params, s)

def find (s : Text) : Found :=
  match (Text.dropPrefix? keyword s).bind header? with
  | none => .nothing
  | some (name, params, s) =>
    match Text.cut? '}' s with
    | none => .unterminated name
    | some (body, rest) => .definition name params body rest

/-- The macro with the given name whose parameters and body read as given. Parameters are separated
by commas and empty ones are skipped; the body is its nonblank lines. -/
def ofSource (file name params body : Text) : MacroDef where
  name := name
  params := ((Text.pieces (· == ',') params).map Text.trim).filter (!·.isEmpty)
  body := ((Text.lines body).map Text.trim).filter (!·.isEmpty)
  file := file

theorem isSuffix_of_header?_eq_some {s name params rest : Text}
    (h : header? s = some (name, params, rest)) : '{' :: rest <:+ s := by
  unfold header? at h
  split at h
  · rename_i c s'
    obtain ⟨-, -, h⟩ := Option.bind_eq_some_iff.1 h
    obtain ⟨⟨a, t⟩, ht, h⟩ := Option.bind_eq_some_iff.1 h
    have ht : t <:+ c :: s' :=
      (Text.isSuffix_of_ident?_eq_some ht).trans (List.dropWhile_suffix _)
    dsimp only at h
    split at h
    · rename_i u hu
      obtain ⟨⟨b, v⟩, hv, h⟩ := Option.bind_eq_some_iff.1 h
      have hu : '(' :: u <:+ t := hu ▸ List.dropWhile_suffix _
      have hv : v <:+ u := (List.suffix_cons _ _).trans (Text.isSuffix_of_cut?_eq_some hv)
      dsimp only at h
      split at h
      · rename_i w hw
        simp only [Option.pure_def, Option.some.injEq, Prod.mk.injEq] at h
        obtain ⟨-, -, rfl⟩ := h
        have hw : '{' :: w <:+ v := hw ▸ List.dropWhile_suffix _
        exact ((hw.trans hv).trans ((List.suffix_cons _ _).trans hu)).trans ht
      · simp at h
    · simp at h
  · simp at h

theorem isSuffix_of_find_eq_definition {s name params body rest : Text}
    (h : find s = .definition name params body rest) : '}' :: rest <:+ s := by
  simp only [find] at h
  split at h
  · simp at h
  · rename_i n p t ht
    split at h
    · simp at h
    · rename_i b r hr
      simp only [Found.definition.injEq] at h
      obtain ⟨-, -, -, rfl⟩ := h
      obtain ⟨u, hu, ht⟩ := Option.bind_eq_some_iff.1 ht
      have hu : u <:+ s := ⟨keyword, (Text.dropPrefix?_eq_some_iff.1 hu).symm⟩
      have ht : t <:+ u := (List.suffix_cons _ _).trans (isSuffix_of_header?_eq_some ht)
      exact ((Text.isSuffix_of_cut?_eq_some hr).trans ht).trans hu

end MacroDef

/-- A part of a source text: a definition with the text that spells it, or other text. -/
inductive Segment where
  | text (source : Text)
  | definition (source : Text) (d : MacroDef)

namespace Segment

def source : Segment → Text
  | text s => s
  | definition s _ => s

def definition? : Segment → Option MacroDef
  | text _ => none
  | definition _ d => some d

/-- What the segment leaves behind when definitions are blanked out: of a definition, only its line
feeds, so that later lines keep their numbers. -/
def blanked : Segment → Text
  | text s => s
  | definition s _ => s.filter (· == '\n')

end Segment

/-- The first line of a text with its line feed, and what follows it. -/
def Text.cutLine : Text → Text × Text
  | [] => ([], [])
  | c :: s =>
    if c = '\n' then ([c], s)
    else
      let (line, rest) := cutLine s
      (c :: line, rest)

theorem Text.append_cutLine (s : Text) : (Text.cutLine s).1 ++ (Text.cutLine s).2 = s := by
  induction s with
  | nil => rfl
  | cons c s ih => by_cases hc : c = '\n' <;> simp [cutLine, hc, ih]

theorem Text.length_cutLine_lt {s : Text} (h : s ≠ []) :
    (Text.cutLine s).2.length < s.length := by
  induction s with
  | nil => exact absurd rfl h
  | cons c s ih =>
    by_cases hc : c = '\n'
    · simp [cutLine, hc]
    · cases s with
      | nil => simp [cutLine, hc]
      | cons d s =>
        rw [cutLine, if_neg hc]
        exact Nat.lt_succ_of_lt (ih (by simp))

/-- The part of a text in front of one of its suffixes. -/
def Text.upTo (s rest : Text) : Text :=
  s.take (s.length - rest.length)

theorem Text.upTo_append {s rest : Text} (h : rest <:+ s) : Text.upTo s rest ++ rest = s := by
  obtain ⟨a, rfl⟩ := h
  simp [Text.upTo]

/-- Cuts a text into definitions and the text between them. A definition without an end is an
error, named by the macro. -/
def segments (file : Text) (s : Text) : Except Text (List Segment) :=
  if _h : s = [] then .ok []
  else
    -- blank lines in front of a definition belong to no definition and hide none
    let code := Text.trimStart s
    match _hf : MacroDef.find code with
    | .definition name params body rest => do
      let later ← segments file rest
      return .text (Text.upTo s code) ::
        .definition (Text.upTo code rest) (.ofSource file name params body) :: later
    | .unterminated name => .error name
    | .nothing => do
      let later ← segments file (Text.cutLine s).2
      return .text (Text.cutLine s).1 :: later
termination_by s.length
decreasing_by
  · have h : '}' :: rest <:+ s :=
      (MacroDef.isSuffix_of_find_eq_definition _hf).trans (List.dropWhile_suffix _)
    exact h.length_le
  · exact Text.length_cutLine_lt _h

theorem flatMap_source_of_segments {file s : Text} {parts : List Segment}
    (h : segments file s = .ok parts) : parts.flatMap Segment.source = s := by
  fun_induction segments file s generalizing parts with
  | case1 =>
    obtain rfl := Except.ok.inj h
    rfl
  | case2 s _ code _ _ _ rest hf =>
    rename_i ih
    cases hl : segments file rest with
    | error e => rw [hl] at h; cases h
    | ok later =>
    rw [hl] at h
    obtain rfl := Except.ok.inj h
    have hcode : code <:+ s := List.dropWhile_suffix _
    have hrest : rest <:+ code :=
      (List.suffix_cons _ _).trans (MacroDef.isSuffix_of_find_eq_definition hf)
    simp only [List.flatMap_cons, Segment.source, ih hl, Text.upTo_append hrest,
      Text.upTo_append hcode]
  | case3 => simp at h
  | case4 s _ _ hf =>
    rename_i ih
    cases hl : segments file (Text.cutLine s).2 with
    | error e => rw [hl] at h; cases h
    | ok later =>
    rw [hl] at h
    obtain rfl := Except.ok.inj h
    simp only [List.flatMap_cons, Segment.source, ih hl, Text.append_cutLine]

end RegisterMachine
