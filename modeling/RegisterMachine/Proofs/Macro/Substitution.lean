import Mathlib.Data.List.Chain
import RegisterMachine.Macro.Call
import RegisterMachine.Proofs.Text.Pieces

/-!
# Substitution of parameters

A body line is a row of words, literals and other characters (`LinePart`), and there is one way
only to cut it into such parts when no word stands next to another one
(`LinePart.isSplit_iff_eq_ofLine`). Substitution works on the parts: each word that is a parameter
gives way to its argument, and everything else stays (`MacroDef.substitute_eq_flatMap`). What an
argument puts in is not cut again.
-/

namespace RegisterMachine

/-- A part of a body line. -/
inductive LinePart where
  /-- A run of letters, digits and underscores. -/
  | word (s : Text)
  /-- What stands between an opening quote and its closing one. -/
  | literal (content : Text)
  /-- What stands behind a quote that is not closed. -/
  | openLiteral (content : Text)
  /-- Any other character. -/
  | sign (c : Char)
  deriving DecidableEq, Repr

namespace LinePart

/-- The text of a part, with the quotes of a literal. -/
def source : LinePart → Text
  | word s => s
  | literal content => '"' :: (content ++ ['"'])
  | openLiteral content => '"' :: content
  | sign c => [c]

def IsWellFormed : LinePart → Prop
  | word s => s ≠ [] ∧ ∀ c ∈ s, Text.isIdentRest c
  | literal content | openLiteral content => '"' ∉ content
  | sign c => Text.isIdentRest c = false ∧ c ≠ '"'

/-- Words are as long as they can be, and nothing follows a literal that is not closed. -/
def IsFollowedBy : LinePart → LinePart → Prop
  | word _, word _ => False
  | openLiteral _, _ => False
  | _, _ => True

instance : DecidablePred IsWellFormed
  | word s => decidable_of_iff (s ≠ [] ∧ s.all Text.isIdentRest)
    (and_congr_right fun _ => List.all_eq_true)
  | literal content | openLiteral content => inferInstanceAs (Decidable ('"' ∉ content))
  | sign c => inferInstanceAs (Decidable (Text.isIdentRest c = false ∧ c ≠ '"'))

instance : DecidableRel IsFollowedBy
  | word _, word _ | openLiteral _, _ => .isFalse id
  | word _, literal _ | word _, openLiteral _ | word _, sign _ | literal _, _ | sign _, _ =>
    .isTrue trivial

/-- The line is cut into these parts. -/
structure IsSplit (line : Text) (parts : List LinePart) : Prop where
  source : parts.flatMap LinePart.source = line
  isWellFormed : ∀ p ∈ parts, p.IsWellFormed
  isChain : parts.IsChain IsFollowedBy

instance (line : Text) (parts : List LinePart) : Decidable (IsSplit line parts) :=
  decidable_of_iff (parts.flatMap LinePart.source = line ∧ (∀ p ∈ parts, p.IsWellFormed) ∧
    parts.IsChain IsFollowedBy) ⟨fun h => ⟨h.1, h.2.1, h.2.2⟩, fun h => ⟨h.1, h.2, h.3⟩⟩

/-- The parts of a line, read from the left. -/
def ofLine : Text → List LinePart
  | [] => []
  | c :: s =>
    if c = '"' then
      match _h : Text.cut? '"' s with
      | some (content, rest) => literal content :: ofLine rest
      | none => [openLiteral s]
    else if Text.isIdentRest c then
      word (c :: s.takeWhile Text.isIdentRest) :: ofLine (s.dropWhile Text.isIdentRest)
    else sign c :: ofLine s
termination_by s => s.length
decreasing_by
  · have h := (Text.isSuffix_of_cut?_eq_some _h).length_le
    exact Nat.lt_succ_of_lt h
  · exact Nat.lt_succ_of_le (List.dropWhile_suffix _).length_le
  · exact Nat.lt_succ_self _

/-- What a part becomes: a word that is a parameter gives way to the argument at the place of the
first parameter of that name. -/
def put (params args : List Text) : LinePart → Text
  | word s => args[params.idxOf s]?.getD s
  | p => p.source

variable {line w content rest : Text} {parts : List LinePart} {p : LinePart} {c : Char}

theorem isIdentRest_quote : Text.isIdentRest '"' = false := by
  decide

theorem isSplit_nil : IsSplit [] [] :=
  ⟨rfl, nofun, .nil⟩

theorem isSplit_cons_iff : IsSplit line (p :: parts) ↔
    ∃ rest, line = p.source ++ rest ∧ p.IsWellFormed ∧ IsSplit rest parts ∧
      ∀ q ∈ parts.head?, p.IsFollowedBy q := by
  constructor
  · rintro ⟨rfl, hwf, hchain⟩
    obtain ⟨hp, hparts⟩ := List.forall_mem_cons.1 hwf
    obtain ⟨hnext, hrest⟩ := List.isChain_cons.1 hchain
    exact ⟨_, rfl, hp, ⟨rfl, hparts, hrest⟩, hnext⟩
  · rintro ⟨rest, rfl, hp, ⟨rfl, hparts, hrest⟩, hnext⟩
    exact ⟨rfl, List.forall_mem_cons.2 ⟨hp, hparts⟩, List.isChain_cons.2 ⟨hnext, hrest⟩⟩

/-- A line goes on with a word exactly if it goes on with a character of one. -/
theorem isFollowedBy_word_iff (h : IsSplit rest parts) (w : Text) :
    (∀ q ∈ parts.head?, (word w).IsFollowedBy q) ↔
      ∀ c ∈ rest.head?, Text.isIdentRest c = false := by
  cases parts with
  | nil =>
    obtain rfl := h.source
    simp
  | cons q parts =>
    obtain ⟨rest, rfl, hq, -, -⟩ := isSplit_cons_iff.1 h
    cases q with
    | word s =>
      obtain ⟨hne, hs⟩ := hq
      obtain ⟨c, s, rfl⟩ := List.exists_cons_of_ne_nil hne
      simp [IsFollowedBy, source, hs c List.mem_cons_self]
    | literal content => simp [IsFollowedBy, source, isIdentRest_quote]
    | openLiteral content => simp [IsFollowedBy, source, isIdentRest_quote]
    | sign c => simp [IsFollowedBy, source, hq.1]

theorem source_literal_append (content rest : Text) :
    source (literal content) ++ rest = '"' :: (content ++ '"' :: rest) := by
  simp [source]

theorem eq_nil_of_isFollowedBy_openLiteral
    (h : ∀ q ∈ parts.head?, (openLiteral content).IsFollowedBy q) : parts = [] := by
  cases parts with
  | nil => rfl
  | cons q parts => exact (h q rfl).elim

/-- A quote that is closed opens a literal. -/
theorem ofLine_of_cut?_eq_some {s : Text} (h : Text.cut? '"' s = some (content, rest)) :
    ofLine ('"' :: s) = literal content :: ofLine rest := by
  rw [ofLine, if_pos rfl]
  split
  · rename_i hcut
    obtain ⟨rfl, rfl⟩ := Prod.mk.inj (Option.some.inj (hcut.symm.trans h))
    rfl
  · rename_i hcut
    cases hcut.symm.trans h

theorem ofLine_of_cut?_eq_none {s : Text} (h : Text.cut? '"' s = none) :
    ofLine ('"' :: s) = [openLiteral s] := by
  rw [ofLine, if_pos rfl]
  split
  · rename_i hcut
    cases hcut.symm.trans h
  · rfl

theorem isSplit_ofLine (line : Text) : IsSplit line (ofLine line) := by
  fun_induction ofLine line with
  | case1 => exact isSplit_nil
  | case2 s content rest hcut ih =>
    obtain ⟨rfl, hcontent⟩ := Text.eq_of_cut?_eq_some hcut
    refine isSplit_cons_iff.2 ⟨rest, by simp [source], hcontent, ih, fun q _ => ?_⟩
    cases q <;> trivial
  | case3 s hcut =>
    have hcontent : '"' ∉ s := Text.cut?_eq_none_iff.1 hcut
    exact isSplit_cons_iff.2 ⟨[], by simp [source], hcontent, isSplit_nil, nofun⟩
  | case4 c s hquote hc ih =>
    have hword : IsWellFormed (word (c :: s.takeWhile Text.isIdentRest)) :=
      ⟨by simp, List.forall_mem_cons.2 ⟨hc, fun d hd => List.mem_takeWhile_imp hd⟩⟩
    refine isSplit_cons_iff.2 ⟨_, by simp [source], hword, ih, (isFollowedBy_word_iff ih _).2 ?_⟩
    intro d hd
    have hhead := List.head?_dropWhile_not Text.isIdentRest s
    rwa [Option.mem_def.1 hd] at hhead
  | case5 c s hquote hc ih =>
    refine isSplit_cons_iff.2 ⟨s, rfl, ⟨Bool.eq_false_iff.2 hc, hquote⟩, ih, fun q _ => ?_⟩
    cases q <;> trivial

theorem eq_ofLine_of_isSplit (h : IsSplit line parts) : parts = ofLine line := by
  induction parts generalizing line with
  | nil =>
    obtain rfl := h.source
    simp [ofLine]
  | cons p parts ih =>
    obtain ⟨rest, rfl, hp, hrest, hnext⟩ := isSplit_cons_iff.1 h
    cases p with
    | word s =>
      obtain ⟨hne, hs⟩ := hp
      obtain ⟨c, s, rfl⟩ := List.exists_cons_of_ne_nil hne
      obtain ⟨hc, hs⟩ := List.forall_mem_cons.1 hs
      have hquote : c ≠ '"' := by
        rintro rfl
        rw [isIdentRest_quote] at hc
        cases hc
      -- the word ends where the rest begins: no character of a word follows
      have hend : rest.takeWhile Text.isIdentRest = [] ∧
          rest.dropWhile Text.isIdentRest = rest := by
        have hhead := (isFollowedBy_word_iff hrest _).1 hnext
        cases rest with
        | nil => exact ⟨rfl, rfl⟩
        | cons d rest => simp [hhead d rfl]
      rw [source, List.cons_append, ofLine, if_neg hquote, if_pos hc,
        List.takeWhile_append_of_pos hs, List.dropWhile_append_of_pos hs, hend.1, hend.2,
        List.append_nil, ih hrest]
    | literal content =>
      have hcut : Text.cut? '"' (content ++ '"' :: rest) = some (content, rest) := by
        rw [Text.cut?_append_of_notMem hp]
        simp [Text.cut?]
      rw [source_literal_append, ofLine_of_cut?_eq_some hcut, ih hrest]
    | openLiteral content =>
      obtain rfl := eq_nil_of_isFollowedBy_openLiteral hnext
      obtain rfl := hrest.source
      rw [source, List.flatMap_nil, List.append_nil,
        ofLine_of_cut?_eq_none (Text.cut?_eq_none_iff.2 hp)]
    | sign c =>
      rw [source, List.singleton_append, ofLine, if_neg hp.2, if_neg (by rw [hp.1]; decide),
        ih hrest]

/-- There is one way to cut a line into its parts. -/
theorem isSplit_iff_eq_ofLine : IsSplit line parts ↔ parts = ofLine line :=
  ⟨eq_ofLine_of_isSplit, fun h => h ▸ isSplit_ofLine line⟩

end LinePart

namespace MacroDef

open LinePart

variable {bindings : List (Text × Text)} {params args : List Text} {line word s content rest : Text}
  {parts : List LinePart}

/-- Outside of words and literals a character is copied; a quote opens a literal. -/
theorem substitute.go_sign {c : Char} (hc : Text.isIdentRest c = false) :
    go bindings false [] (c :: rest) = c :: go bindings (c == '"') [] rest := by
  rw [go, if_neg (by simp), if_neg (by simp [hc])]
  rfl

/-- A word is looked up when it ends. -/
theorem substitute.go_word (hs : ∀ c ∈ s, Text.isIdentRest c)
    (hrest : ∀ c ∈ rest.head?, Text.isIdentRest c = false) :
    go bindings false word (s ++ rest) =
      resolve bindings (word.reverse ++ s) ++ go bindings false [] rest := by
  induction s generalizing word with
  | nil =>
    cases rest with
    | nil => simp [go, resolve]
    | cons c rest => simp [go, resolve, hrest c rfl]
  | cons c s ih =>
    obtain ⟨hc, hs⟩ := List.forall_mem_cons.1 hs
    rw [List.cons_append, go, if_neg (by simp), if_pos hc, ih hs]
    simp

theorem substitute.go_literal (h : '"' ∉ content) :
    go bindings true [] (content ++ '"' :: rest) = content ++ '"' :: go bindings false [] rest := by
  induction content with
  | nil => simp [go]
  | cons c content ih =>
    obtain ⟨hc, hcontent⟩ := List.ne_and_not_mem_of_not_mem_cons h
    rw [List.cons_append, go, if_pos rfl, bne_iff_ne.2 (Ne.symm hc), ih hcontent, List.cons_append]

theorem substitute.go_openLiteral (h : '"' ∉ content) : go bindings true [] content = content := by
  induction content with
  | nil => rfl
  | cons c content ih =>
    obtain ⟨hc, hcontent⟩ := List.ne_and_not_mem_of_not_mem_cons h
    rw [go, if_pos rfl, bne_iff_ne.2 (Ne.symm hc), ih hcontent]

theorem lookup_zip (h : params.length = args.length) (name : Text) :
    (params.zip args).lookup name = args[params.idxOf name]? := by
  induction params generalizing args with
  | nil => simp [List.length_eq_zero_iff.1 h.symm]
  | cons p params ih =>
    cases args with
    | nil => cases h
    | cons a args =>
      rw [List.zip_cons_cons, List.lookup_cons, List.idxOf_cons, BEq.comm]
      cases p == name with
      | true => rfl
      | false => simpa using ih (Nat.succ.inj h)

theorem resolve_zip (h : params.length = args.length) (hne : word ≠ []) :
    resolve (params.zip args) word = put params args (.word word) := by
  obtain ⟨c, word, rfl⟩ := List.exists_cons_of_ne_nil hne
  rw [resolve, lookup_zip h, put]

theorem substitute_eq_flatMap (h : params.length = args.length) (hs : IsSplit line parts) :
    substitute (params.zip args) line = parts.flatMap (put params args) := by
  rw [substitute]
  induction parts generalizing line with
  | nil =>
    obtain rfl := hs.source
    rfl
  | cons p parts ih =>
    obtain ⟨rest, rfl, hp, hrest, hnext⟩ := isSplit_cons_iff.1 hs
    rw [List.flatMap_cons, ← ih hrest]
    cases p with
    | word s =>
      rw [source, substitute.go_word hp.2 ((isFollowedBy_word_iff hrest s).1 hnext),
        List.reverse_nil, List.nil_append, resolve_zip h hp.1]
    | literal content =>
      rw [source_literal_append, substitute.go_sign isIdentRest_quote, beq_self_eq_true,
        substitute.go_literal hp]
      simp [put, source]
    | openLiteral content =>
      obtain rfl := eq_nil_of_isFollowedBy_openLiteral hnext
      obtain rfl := hrest.source
      rw [source, List.flatMap_nil, List.append_nil, substitute.go_sign isIdentRest_quote,
        beq_self_eq_true, substitute.go_openLiteral hp]
      simp [put, source, substitute.go, resolve]
    | sign c =>
      rw [source, List.singleton_append, substitute.go_sign hp.1, beq_eq_false_iff_ne.2 hp.2]
      rfl

/-- What a part becomes where every argument is a word. -/
def rename (params args : List Text) : LinePart → LinePart
  | .word s => .word (put params args (.word s))
  | p => p

theorem source_rename (p : LinePart) : (rename params args p).source = put params args p := by
  cases p <;> rfl

theorem isWellFormed_rename (hargs : ∀ a ∈ args, (LinePart.word a).IsWellFormed) {p : LinePart}
    (hp : p.IsWellFormed) : (rename params args p).IsWellFormed := by
  cases p with
  | word s =>
    rw [rename, put]
    cases ha : args[params.idxOf s]? with
    | none => exact hp
    | some a => exact hargs a (List.mem_of_getElem? ha)
  | literal content | openLiteral content | sign c => exact hp

theorem isFollowedBy_rename {p q : LinePart} (h : p.IsFollowedBy q) :
    (rename params args p).IsFollowedBy (rename params args q) := by
  cases p <;> cases q <;> exact h

/-- Words that take the place of words leave the line cut in the same places. -/
theorem isSplit_substitute (h : params.length = args.length)
    (hargs : ∀ a ∈ args, (LinePart.word a).IsWellFormed) (hs : IsSplit line parts) :
    IsSplit (substitute (params.zip args) line) (parts.map (rename params args)) := by
  refine ⟨?_, ?_, ?_⟩
  · rw [substitute_eq_flatMap h hs, List.flatMap_map]
    simp only [source_rename]
  · intro q hq
    obtain ⟨p, hp, rfl⟩ := List.mem_map.1 hq
    exact isWellFormed_rename hargs (hs.isWellFormed p hp)
  · rw [List.isChain_map]
    exact hs.isChain.imp fun p q => isFollowedBy_rename

theorem put_swap (x y s : Text) :
    put [x, y] [y, x] (.word s) = if x = s then y else if y = s then x else s := by
  rw [put, List.idxOf_cons, List.idxOf_cons]
  by_cases hx : x = s
  · simp [hx]
  · rw [beq_eq_false_iff_ne.2 hx, if_neg hx]
    by_cases hy : y = s
    · simp [hy]
    · rw [beq_eq_false_iff_ne.2 hy, if_neg hy]
      rfl

/-- Where two words are exchanged, exchanging them again gives the line back. -/
theorem substitute_swap_swap (line : Text) {x y : Text} (hx : (LinePart.word x).IsWellFormed)
    (hy : (LinePart.word y).IsWellFormed) :
    substitute ([x, y].zip [y, x]) (substitute ([x, y].zip [y, x]) line) = line := by
  have hlength : [x, y].length = [y, x].length := rfl
  have hargs : ∀ a ∈ [y, x], (LinePart.word a).IsWellFormed := by simp [hx, hy]
  have hback (p : LinePart) : put [x, y] [y, x] (rename [x, y] [y, x] p) = p.source := by
    cases p with
    | word s =>
      -- what was `x` is `y` now and turns into `x` again, and the other way round
      rw [rename, put_swap, put_swap, source]
      grind
    | literal content | openLiteral content | sign c => rfl
  have hs := isSplit_ofLine line
  rw [substitute_eq_flatMap hlength (isSplit_substitute hlength hargs hs), List.flatMap_map]
  simp only [hback]
  exact hs.source

/-- Substitution is simultaneous: it replaces the words of the line that are parameters, and looks
at no argument again. -/
theorem substitute_of_isSplit (h : params.length = args.length) (line : Text) :
    (∃! parts, IsSplit line parts) ∧
      (∀ parts, IsSplit line parts →
        substitute (params.zip args) line = parts.flatMap (put params args)) ∧
      ∀ x y, (LinePart.word x).IsWellFormed → (LinePart.word y).IsWellFormed →
        substitute ([x, y].zip [y, x]) (substitute ([x, y].zip [y, x]) line) = line := by
  refine ⟨⟨ofLine line, isSplit_ofLine line, fun parts => isSplit_iff_eq_ofLine.1⟩, ?_, ?_⟩
  · exact fun parts hs => substitute_eq_flatMap h hs
  · exact fun x y hx hy => substitute_swap_swap line hx hy

/-- The parameters `a` and `b` are exchanged, but not in literals and not as parts of words. -/
theorem substitute_of_isSplit_swap :
    ["a".toList, "b".toList].length = ["b".toList, "a".toList].length ∧
      IsSplit "a\"a b\"+b a2 \"b".toList
        [.word "a".toList, .literal "a b".toList, .sign '+', .word "b".toList, .sign ' ',
          .word "a2".toList, .sign ' ', .openLiteral "b".toList] ∧
      substitute (["a".toList, "b".toList].zip ["b".toList, "a".toList])
        "a\"a b\"+b a2 \"b".toList = "b\"a b\"+a a2 \"b".toList := by
  have h : ["a".toList, "b".toList].length = ["b".toList, "a".toList].length := rfl
  have hs : IsSplit "a\"a b\"+b a2 \"b".toList
      [.word "a".toList, .literal "a b".toList, .sign '+', .word "b".toList, .sign ' ',
        .word "a2".toList, .sign ' ', .openLiteral "b".toList] := by decide +kernel
  refine ⟨h, hs, ?_⟩
  rw [(substitute_of_isSplit h _).2.1 _ hs]
  decide +kernel

end MacroDef

end RegisterMachine
