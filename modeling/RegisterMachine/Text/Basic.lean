/-!
# Text

Source text, names and printed lines are lists of characters. This file holds the operations that
every pass over a source file needs: white space, trimming, lines, words, and the split at the
first occurrence of a character. All of them are structural, so a proof follows the text.
-/

namespace RegisterMachine

abbrev Text := List Char

instance instLawfulBEqText : LawfulBEq Text :=
  inferInstance

namespace Text

/-- The closed code point ranges of the Unicode property White_Space. -/
def blankRanges : List (Nat × Nat) :=
  [(0x09, 0x0D), (0x20, 0x20), (0x85, 0x85), (0xA0, 0xA0), (0x1680, 0x1680), (0x2000, 0x200A),
   (0x2028, 0x2029), (0x202F, 0x202F), (0x205F, 0x205F), (0x3000, 0x3000)]

/-- White space of the line grammar: the Unicode property. -/
def isBlank (c : Char) : Bool :=
  blankRanges.any fun r => r.1 ≤ c.toNat && c.toNat ≤ r.2

/-- White space inside a definition header: space, tab, line feed, form feed, carriage return. -/
def isAsciiBlank (c : Char) : Bool :=
  c == ' ' || c == '\t' || c == '\n' || c == '\x0c' || c == '\r'

/-- A character that continues an identifier: an ASCII letter or digit, or an underscore. -/
def isIdentRest (c : Char) : Bool :=
  c.isAlphanum || c == '_'

/-- A character that starts an identifier: an ASCII letter or an underscore. -/
def isIdentStart (c : Char) : Bool :=
  c.isAlpha || c == '_'

/-- The text with its ASCII letters in lower case. -/
def foldCase (s : Text) : Text :=
  s.map Char.toLower

def upperCase (s : Text) : Text :=
  s.map Char.toUpper

/-- The text without the longest suffix whose characters all satisfy `p`. -/
def dropEndWhile (p : Char → Bool) : Text → Text
  | [] => []
  | c :: s =>
    match dropEndWhile p s with
    | [] => if p c then [] else [c]
    | d :: r => c :: d :: r

def trimStart (s : Text) : Text :=
  s.dropWhile isBlank

def trimEnd (s : Text) : Text :=
  dropEndWhile isBlank s

def trim (s : Text) : Text :=
  trimEnd (trimStart s)

/-- Puts a character in front of the first piece; starts one if there is none. -/
def consHead (c : Char) : List Text → List Text
  | [] => [[c]]
  | l :: ls => (c :: l) :: ls

/-- The lines of a text: each ends at a line feed, which is dropped together with one carriage
return directly before it. A last line without a line feed is kept as it stands. -/
def lines : Text → List Text
  | [] => []
  | '\n' :: s => [] :: lines s
  | '\r' :: '\n' :: s => [] :: lines s
  | c :: s => consHead c (lines s)

/-- The pieces between the characters that satisfy `p`; there is always at least one. -/
def pieces (p : Char → Bool) : Text → List Text
  | [] => [[]]
  | c :: s => if p c then [] :: pieces p s else consHead c (pieces p s)

def words (p : Char → Bool) (s : Text) : List Text :=
  (pieces p s).filter (!·.isEmpty)

/-- What stands before and after the first `c`, or `none` if there is no `c`. -/
def cut? (c : Char) : Text → Option (Text × Text)
  | [] => none
  | d :: s => if d = c then some ([], s) else (cut? c s).map fun r => (d :: r.1, r.2)

/-- What follows the prefix `p`, or `none` if the text does not start with it. -/
def dropPrefix? : Text → Text → Option Text
  | [], s => some s
  | _ :: _, [] => none
  | p :: ps, c :: s => if p = c then dropPrefix? ps s else none

def dropLast? (c : Char) : Text → Option Text
  | [] => none
  | [d] => if d = c then some [] else none
  | d :: e :: s => (dropLast? c (e :: s)).map (d :: ·)

/-- The pieces in order with `sep` between neighbours. -/
def join (sep : Text) : List Text → Text
  | [] => []
  | [s] => s
  | s :: t :: r => s ++ sep ++ join sep (t :: r)

/-- The lines in order, each followed by a line feed. -/
def unlines (ls : List Text) : Text :=
  ls.flatMap (· ++ ['\n'])

def padEnd (width : Nat) (s : Text) : Text :=
  s ++ List.replicate (width - s.length) ' '

def padStart (fill : Char) (width : Nat) (s : Text) : Text :=
  List.replicate (width - s.length) fill ++ s

@[simp] theorem isEmpty_consHead (c : Char) (ls : List Text) : (consHead c ls).isEmpty = false := by
  cases ls <;> rfl

theorem dropEndWhile_append_of_pos {p : Char → Bool} (s : Text) {t : Text} (h : ∀ c ∈ t, p c) :
    dropEndWhile p (s ++ t) = dropEndWhile p s := by
  induction s with
  | nil =>
    induction t with
    | nil => rfl
    | cons c t ih =>
      have := ih fun d hd => h d (List.mem_cons_of_mem _ hd)
      simp_all [dropEndWhile]
  | cons c s ih => simp [dropEndWhile, ih]

/-- A cut loses nothing: the two parts and the separator give the text back. -/
theorem eq_of_cut?_eq_some {c : Char} {s a b : Text} (h : cut? c s = some (a, b)) :
    s = a ++ c :: b ∧ c ∉ a := by
  induction s generalizing a with
  | nil => simp [cut?] at h
  | cons d s ih =>
    by_cases hd : d = c
    · simp only [cut?, hd, if_true, Option.some.injEq, Prod.mk.injEq] at h
      obtain ⟨rfl, rfl⟩ := h
      simp [hd]
    · simp only [cut?, hd, if_false, Option.map_eq_some_iff, Prod.mk.injEq] at h
      obtain ⟨⟨x, y⟩, hxy, rfl, rfl⟩ := h
      obtain ⟨rfl, hx⟩ := ih hxy
      simp [hx, Ne.symm hd]

theorem dropPrefix?_eq_some_iff {p s r : Text} : dropPrefix? p s = some r ↔ s = p ++ r := by
  induction p generalizing s with
  | nil => simp [dropPrefix?]
  | cons a p ih =>
    cases s with
    | nil => simp [dropPrefix?]
    | cons c s =>
      by_cases h : a = c
      · simp [dropPrefix?, h, ih]
      · simp [dropPrefix?, h, Ne.symm h]

end Text

end RegisterMachine
