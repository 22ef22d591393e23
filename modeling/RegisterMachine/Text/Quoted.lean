import RegisterMachine.Text.Basic

/-!
# Quoted literals on a line

A double quote opens a literal and the next one closes it; there is no escape. A comment starts at
the first semicolon outside a literal.
-/

namespace RegisterMachine.Text

/-- The text between the first two double quotes, or `none` if there are fewer than two. -/
def quoted? (s : Text) : Option Text := do
  let (_, r) ← cut? '"' s
  let (literal, _) ← cut? '"' r
  return literal

/-- The text before its comment. -/
def stripComment (s : Text) : Text :=
  go false s
where
  /-- The code from here on; `inLiteral` holds between an opening quote and its closing one. -/
  go (inLiteral : Bool) : Text → Text
    | [] => []
    | c :: s =>
      if c = '"' then c :: go (!inLiteral) s
      else if c = ';' ∧ inLiteral = false then []
      else c :: go inLiteral s

theorem stripComment.go_of_notMem (q : Bool) {s : Text} (h : ';' ∉ s) :
    stripComment.go q s = s := by
  induction s generalizing q with
  | nil => rfl
  | cons c s ih =>
    simp only [List.mem_cons, not_or] at h
    simp [stripComment.go, ih _ h.2, Ne.symm h.1]

theorem stripComment_of_notMem {s : Text} (h : ';' ∉ s) : stripComment s = s :=
  stripComment.go_of_notMem false h

end RegisterMachine.Text
