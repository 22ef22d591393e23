import RegisterMachine.Macro.Call
import RegisterMachine.Proofs.Macro.Definition

/-!
# Calls as text

A call is written with its name and its arguments. Three readers follow the text, each with a count
of the open parentheses and a mark for literals of its own: the one that drops the comment, the one
that looks for the end of the call, and the one that cuts the arguments apart. `MacroCall.Nested` is
the grammar of what all of them pass through: the texts whose literals and parentheses are balanced
when they are read from the left (`MacroCall.nested_iff_isNested`). From it follows that a call is
read back as it was written (`MacroCall.parse_of_isArguments`).
-/

namespace RegisterMachine

namespace MacroCall

/-- A text in which `depth` more parentheses are closed than opened, every other one is closed after
it was opened, and every literal is closed. No semicolon stands outside of the literals, and a comma
stands outside of the parentheses only where `commas` permits it. -/
inductive Nested (commas : Bool) : Nat → Text → Prop
  | nil : Nested commas 0 []
  | literal {depth : Nat} {content s : Text} (hcontent : '"' ∉ content)
    (hs : Nested commas depth s) : Nested commas depth ('"' :: (content ++ '"' :: s))
  | opening {depth : Nat} {s : Text} (hs : Nested commas (depth + 1) s) :
    Nested commas depth ('(' :: s)
  | closing {depth : Nat} {s : Text} (hs : Nested commas depth s) :
    Nested commas (depth + 1) (')' :: s)
  | comma {depth : Nat} {s : Text} (hcomma : commas = true ∨ 0 < depth)
    (hs : Nested commas depth s) : Nested commas depth (',' :: s)
  | plain {depth : Nat} {c : Char} {s : Text} (hc : c ∉ ['"', '(', ')', ',', ';'])
    (hs : Nested commas depth s) : Nested commas depth (c :: s)

variable {commas : Bool} {depth k : Nat} {c : Char} {s t content : Text}

theorem nested_of_forall (h : ∀ c ∈ s, c ∉ ['"', '(', ')', ',', ';']) : Nested commas 0 s := by
  induction s with
  | nil => exact .nil
  | cons c s ih =>
    obtain ⟨hc, hs⟩ := List.forall_mem_cons.1 h
    exact .plain hc (ih hs)

namespace Nested

/-- What closes the parentheses of the one text and then those of another one. -/
theorem append (hs : Nested commas depth s) (ht : Nested commas k t) :
    Nested commas (k + depth) (s ++ t) := by
  induction hs with
  | nil => exact ht
  | literal hcontent _ ih =>
    rw [List.cons_append, List.append_assoc]
    exact .literal hcontent ih
  | opening _ ih => exact .opening ih
  | closing _ ih => exact .closing ih
  | comma hcomma _ ih => exact .comma (hcomma.imp_right (Nat.lt_add_left k)) ih
  | plain hc _ ih => exact .plain hc ih

theorem commas_true (h : Nested commas depth s) : Nested true depth s := by
  induction h with
  | nil => exact .nil
  | literal hcontent _ ih => exact .literal hcontent ih
  | opening _ ih => exact .opening ih
  | closing _ ih => exact .closing ih
  | comma _ _ ih => exact .comma (.inl rfl) ih
  | plain hc _ ih => exact .plain hc ih

end Nested

theorem nested_join {args : List Text} (h : ∀ a ∈ args, Nested false 0 a) :
    Nested true 0 (Text.join [',', ' '] args) := by
  induction args using Text.join.induct with
  | case1 => exact .nil
  | case2 a => exact (h a List.mem_cons_self).commas_true
  | case3 a b args ih =>
    obtain ⟨ha, hrest⟩ := List.forall_mem_cons.1 h
    rw [Text.join, List.append_assoc]
    exact ha.commas_true.append (.comma (.inl rfl) (.plain (by decide) (ih hrest)))

/-- A text that is read from the left, within a literal or not, with the count of the parentheses
that are still open: it never closes one that is not open, and none is open at its end. -/
def isNested (commas : Bool) (depth : Nat) (inLiteral : Bool) : Text → Bool
  | [] => depth == 0 && !inLiteral
  | c :: s =>
    if c = '"' then isNested commas depth (!inLiteral) s
    else if inLiteral then isNested commas depth true s
    else if c = '(' then isNested commas (depth + 1) false s
    else if c = ')' then 0 < depth && isNested commas (depth - 1) false s
    else if c = ',' then (commas || 0 < depth) && isNested commas depth false s
    else c ≠ ';' && isNested commas depth false s

theorem isNested_literal (h : '"' ∉ content) :
    isNested commas depth true (content ++ '"' :: s) = isNested commas depth false s := by
  induction content with
  | nil => simp [isNested]
  | cons c content ih =>
    simp only [List.mem_cons, not_or] at h
    simp [isNested, Ne.symm h.1, ih h.2]

theorem Nested.isNested (h : Nested commas depth s) : isNested commas depth false s := by
  induction h with
  | nil => rfl
  | literal hcontent _ ih => simpa [MacroCall.isNested, isNested_literal hcontent] using ih
  | opening _ ih | closing _ ih => simpa [MacroCall.isNested] using ih
  | comma hcomma _ ih => simpa [MacroCall.isNested, hcomma] using ih
  | plain hc _ ih =>
    simp only [List.mem_cons, List.not_mem_nil, or_false, not_or] at hc
    simpa [MacroCall.isNested, hc] using ih

/-- What is read within a literal is nested behind the end of this literal. -/
theorem nested_of_isNested :
    (isNested commas depth false s → Nested commas depth s) ∧
      (isNested commas depth true s →
        ∃ content t, s = content ++ '"' :: t ∧ '"' ∉ content ∧ Nested commas depth t) := by
  induction s generalizing depth with
  | nil =>
    constructor
    · intro h
      obtain rfl : depth = 0 := by simpa [isNested] using h
      exact .nil
    · intro h
      simp [isNested] at h
  | cons c s ih =>
    by_cases hquote : c = '"'
    · subst hquote
      -- the quote opens a literal, or it closes the one in which it stands
      constructor
      · intro h
        obtain ⟨content, t, rfl, hcontent, ht⟩ := ih.2 h
        exact .literal hcontent ht
      · intro h
        exact ⟨[], s, rfl, List.not_mem_nil, ih.1 h⟩
    constructor
    · intro h
      by_cases hopening : c = '('
      · subst hopening
        exact .opening (ih.1 h)
      by_cases hclosing : c = ')'
      · subst hclosing
        obtain ⟨hdepth, h⟩ : 0 < depth ∧ isNested commas (depth - 1) false s := by
          simpa [isNested] using h
        rw [← Nat.sub_add_cancel hdepth]
        exact .closing (ih.1 h)
      by_cases hcomma : c = ','
      · subst hcomma
        obtain ⟨hdepth, h⟩ : (commas ∨ 0 < depth) ∧ isNested commas depth false s := by
          simpa [isNested] using h
        exact .comma hdepth (ih.1 h)
      obtain ⟨hsemicolon, h⟩ : c ≠ ';' ∧ isNested commas depth false s := by
        simpa [isNested, hquote, hopening, hclosing, hcomma] using h
      exact .plain (by simp [hquote, hopening, hclosing, hcomma, hsemicolon]) (ih.1 h)
    · intro h
      have hs : isNested commas depth true s := by simpa [isNested, hquote] using h
      obtain ⟨content, t, rfl, hcontent, ht⟩ := ih.2 hs
      exact ⟨c :: content, t, rfl, by simp [Ne.symm hquote, hcontent], ht⟩

/-- The nested texts are those whose literals and parentheses are balanced when they are read from
the left. -/
theorem nested_iff_isNested : Nested commas depth s ↔ isNested commas depth false s :=
  ⟨Nested.isNested, nested_of_isNested.1⟩

instance : Decidable (Nested commas depth s) :=
  decidable_of_iff _ nested_iff_isNested.symm

theorem stripComment_go_literal (h : '"' ∉ content) (t : Text) :
    Text.stripComment.go true (content ++ '"' :: t) =
      content ++ '"' :: Text.stripComment.go false t := by
  induction content with
  | nil => rfl
  | cons c content ih =>
    simp only [List.mem_cons, not_or] at h
    simp [Text.stripComment.go, Ne.symm h.1, ih h.2]

theorem closing?_literal (h : '"' ∉ content) (t : Text) :
    closing? k true (content ++ '"' :: t) =
      (closing? k false t).map fun r => content ++ '"' :: r := by
  induction content with
  | nil => rfl
  | cons c content ih =>
    simp only [List.mem_cons, not_or] at h
    simp [closing?, Ne.symm h.1, ih h.2, Function.comp_def]

theorem pieces_literal (h : '"' ∉ content) {d : Int} {l : Text} {ls : List Text}
    (ht : pieces d false t = l :: ls) :
    pieces d true (content ++ '"' :: t) = (content ++ '"' :: l) :: ls := by
  induction content with
  | nil => simp [pieces, ht, Text.consHead]
  | cons c content ih =>
    simp only [List.mem_cons, not_or] at h
    simp [pieces, Ne.symm h.1, ih h.2, Text.consHead]

namespace Nested

/-- No comment starts in a nested text. -/
theorem stripComment_go_append (h : Nested commas depth s) (t : Text) :
    Text.stripComment.go false (s ++ t) = s ++ Text.stripComment.go false t := by
  induction h with
  | nil => rfl
  | literal hcontent _ ih =>
    have hliteral := stripComment_go_literal hcontent
    simp [Text.stripComment.go, hliteral, ih]
  | opening _ ih | closing _ ih | comma _ _ ih => simp [Text.stripComment.go, ih]
  | plain hc _ ih =>
    simp only [List.mem_cons, List.not_mem_nil, or_false, not_or] at hc
    simp [Text.stripComment.go, hc, ih]

/-- A nested text closes the parentheses that it has to, and not the one of the call. -/
theorem closing?_append (h : Nested commas depth s) (t : Text) :
    closing? (k + depth) false (s ++ t) = (closing? k false t).map (s ++ ·) := by
  induction h with
  | nil => simp
  | literal hcontent _ ih =>
    have hliteral {k : Nat} := closing?_literal (k := k) hcontent
    simp [closing?, hliteral, ih, Function.comp_def]
  | opening _ ih =>
    rw [← Nat.add_assoc] at ih
    simp [closing?, ih, Function.comp_def]
  | closing _ ih =>
    rw [← Nat.add_assoc]
    simp [closing?, ih, Function.comp_def]
  | comma _ _ ih => simp [closing?, ih, Function.comp_def]
  | plain hc _ ih =>
    simp only [List.mem_cons, List.not_mem_nil, or_false, not_or] at hc
    simp [closing?, hc, ih, Function.comp_def]

/-- A nested text without commas of its own is not cut. -/
theorem pieces_append (h : Nested false depth s) {l : Text} {ls : List Text}
    (ht : pieces 0 false t = l :: ls) : pieces depth false (s ++ t) = (s ++ l) :: ls := by
  induction h with
  | nil => exact ht
  | literal hcontent _ ih =>
    have hliteral := pieces_literal hcontent ih
    simp [pieces, hliteral, Text.consHead]
  | opening _ ih =>
    push_cast at ih
    simp [pieces, ih, Text.consHead]
  | closing _ ih =>
    push_cast
    simp [pieces, ih, Text.consHead]
  | comma hcomma _ ih =>
    have hdepth := hcomma.resolve_left Bool.false_ne_true
    simp [pieces, hdepth.ne', ih, Text.consHead]
  | plain hc _ ih =>
    simp only [List.mem_cons, List.not_mem_nil, or_false, not_or] at hc
    simp [pieces, hc, ih, Text.consHead]

end Nested

/-- The arguments of a call that can be written: none has white space at its ends, and each is
nested without commas of its own. -/
def IsArguments (args : List Text) : Prop :=
  ∀ a ∈ args, Text.trim a = a ∧ Nested false 0 a

instance (args : List Text) : Decidable (IsArguments args) :=
  inferInstanceAs (Decidable (∀ a ∈ args, Text.trim a = a ∧ Nested false 0 a))

variable {args : List Text} {name lead gap comment : Text}

/-- The text of the arguments is cut at the commas between them. -/
theorem arguments_join (hargs : IsArguments args) (hne : args ≠ [[]]) :
    arguments (Text.join [',', ' '] args) = args := by
  by_cases hnil : args = []
  · subst hnil
    rfl
  have hpieces : (pieces 0 false (Text.join [',', ' '] args)).map Text.trim = args := by
    refine Text.map_trim_of_join (fun t => rfl) (fun a ha => ?_) (fun a ha t => ?_)
      (fun a ha => (hargs a ha).1) hnil
    · simpa using (hargs a ha).2.pieces_append (show pieces 0 false [] = [[]] from rfl)
    · simpa using (hargs a ha).2.pieces_append
        (show pieces 0 false (',' :: t) = [] :: pieces 0 false t from rfl)
  have htrim : Text.trim (Text.join [',', ' '] args) ≠ [] := by
    intro hblank
    match args with
    | [] => exact hnil rfl
    | [a] =>
      have ha : a = [] := (hargs a List.mem_cons_self).1.symm.trans hblank
      exact hne (ha ▸ rfl)
    | a :: b :: args =>
      have hcomma := Text.isBlank_of_trim_eq_nil hblank ',' (by simp [Text.join])
      exact absurd hcomma (by decide)
  rw [arguments, if_neg (by simpa using htrim), hpieces]

theorem nested_of_isIdent (h : Text.IsIdent name) : Nested commas 0 name := by
  refine nested_of_forall fun c hc hmem => ?_
  have hsigns : ['"', '(', ')', ',', ';'].all fun c => !Text.isIdentRest c := by decide
  have hfalse := List.all_eq_true.1 hsigns c hmem
  rw [h.isIdentRest c hc] at hfalse
  cases hfalse

theorem nested_of_isBlank (h : ∀ c ∈ s, Text.isBlank c) : Nested commas 0 s := by
  refine nested_of_forall fun c hc hmem => ?_
  have hsigns : ['"', '(', ')', ',', ';'].all fun c => !Text.isBlank c := by decide
  have hfalse := List.all_eq_true.1 hsigns c hmem
  rw [h c hc] at hfalse
  cases hfalse

/-- The call on a line, with white space around it and a comment behind it. -/
theorem trim_stripComment_call (hname : Text.IsIdent name) (hargs : IsArguments args)
    (hlead : ∀ c ∈ lead, Text.isBlank c) (hgap : ∀ c ∈ gap, Text.isBlank c)
    (hcomment : ∀ c ∈ comment.head?, c = ';') :
    Text.trim (Text.stripComment
      (lead ++ (name ++ '(' :: (Text.join [',', ' '] args ++ ')' :: (gap ++ comment))))) =
        name ++ '(' :: (Text.join [',', ' '] args ++ [')']) := by
  let call := name ++ '(' :: (Text.join [',', ' '] args ++ [')'])
  have hnested : Nested true 0 (lead ++ (call ++ gap)) := by
    have hjoin : Nested true 1 (Text.join [',', ' '] args ++ ')' :: gap) :=
      (nested_join fun a ha => (hargs a ha).2).append (.closing (nested_of_isBlank hgap))
    have hcall := (nested_of_isIdent hname).append (.opening hjoin)
    simpa [call] using (nested_of_isBlank hlead).append hcall
  have hdrop : Text.stripComment.go false comment = [] := by
    cases comment with
    | nil => rfl
    | cons c comment =>
      obtain rfl := hcomment c rfl
      rfl
  have hstrip : Text.stripComment (lead ++ (call ++ gap) ++ comment) = lead ++ (call ++ gap) := by
    rw [Text.stripComment, hnested.stripComment_go_append, hdrop, List.append_nil]
  have hself : Text.trim call = call := by
    refine Text.trim_eq_self (fun c hc => ?_) fun c hc => ?_
    · rw [List.head?_append_of_ne_nil _ hname.ne_nil] at hc
      have hrest := hname.isIdentRest c (List.mem_of_mem_head? hc)
      exact Text.isBlank_eq_false_of_isIdentRest hrest
    · have hcall : call = (name ++ '(' :: Text.join [',', ' '] args) ++ [')'] := by simp [call]
      rw [hcall, List.getLast?_concat] at hc
      obtain rfl : ')' = c := Option.some.inj hc
      decide
  calc Text.trim (Text.stripComment
        (lead ++ (name ++ '(' :: (Text.join [',', ' '] args ++ ')' :: (gap ++ comment)))))
      = Text.trim (Text.stripComment (lead ++ (call ++ gap) ++ comment)) := by simp [call]
    _ = Text.trim (lead ++ (call ++ gap)) := by rw [hstrip]
    _ = Text.trim (call ++ gap) := by
      rw [Text.trim, Text.trimStart, List.dropWhile_append_of_pos hlead]
      rfl
    _ = call := by rw [Text.trim_append_of_forall hgap, hself]

/-- A call is read back from a line: the name and the text of the arguments, which is cut into the
arguments again. The one argument list without a text of its own is that of a single empty
argument. -/
theorem parse_of_isArguments (hname : Text.IsIdent name) (hargs : IsArguments args)
    (hne : args ≠ [[]]) (hlead : ∀ c ∈ lead, Text.isBlank c) (hgap : ∀ c ∈ gap, Text.isBlank c)
    (hcomment : ∀ c ∈ comment.head?, c = ';') :
    parse? (lead ++ (name ++ '(' :: (Text.join [',', ' '] args ++ ')' :: (gap ++ comment)))) =
        some (name, Text.join [',', ' '] args) ∧
      arguments (Text.join [',', ' '] args) = args := by
  refine ⟨?_, arguments_join hargs hne⟩
  have hident (t : Text) : Text.ident? (name ++ '(' :: t) = some (name, '(' :: t) :=
    hname.ident?_append_cons (by decide) t
  have hjoin := nested_join fun a ha => (hargs a ha).2
  have hclosing : closing? 0 false (Text.join [',', ' '] args ++ [')']) =
      some (Text.join [',', ' '] args) := by
    simpa [closing?] using hjoin.closing?_append (k := 0) [')']
  unfold parse?
  rw [trim_stripComment_call hname hargs hlead hgap hcomment]
  refine Option.bind_eq_some_iff.2 ⟨_, hident _, ?_⟩
  exact Option.bind_eq_some_iff.2 ⟨_, hclosing, rfl⟩

/-- A call within an argument, with a literal that holds what separates and ends arguments, an empty
argument, and a comment that would open a call. -/
theorem parse_of_isArguments_nested :
    parse? " both(f(x, \"),;\"), , R1) ; g(".toList =
        some ("both".toList, "f(x, \"),;\"), , R1".toList) ∧
      arguments "f(x, \"),;\"), , R1".toList = ["f(x, \"),;\")".toList, [], "R1".toList] := by
  have hargs : IsArguments ["f(x, \"),;\")".toList, [], "R1".toList] := by decide
  have hname : Text.IsIdent "both".toList := by decide
  have hblank : ∀ c ∈ [' '], Text.isBlank c := List.forall_mem_singleton.2 (by decide)
  have hcomment : ∀ c ∈ "; g(".toList.head?, c = ';' := by
    intro c hc
    cases hc
    rfl
  have hread := parse_of_isArguments hname hargs (by decide) hblank hblank hcomment
  exact hread

end MacroCall

end RegisterMachine
