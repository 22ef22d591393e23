import Mathlib.Data.List.Chain
import Mathlib.Logic.Relation
import RegisterMachine.Proofs.Macro.Origins

/-!
# Circular macros

Expansion fails at a call of a macro that is being expanded around it. Which calls stand in a body
is known only once the arguments are put in, so macros that do not lead back to themselves as they
are written can still do so when they are expanded (`exists_circularMacro_of_isAcyclic`). The chain
that the error reports is then a nest of calls in which one, on the way from the macro back to
itself, is made by the arguments (`exists_carried_of_circularMacro`).
-/

namespace RegisterMachine

namespace MacroTable

/-- A macro of the table calls another one on a line of its body, as it is written. -/
def Calls (table : MacroTable) (m n : MacroDef) : Prop :=
  m ∈ table ∧ ∃ line ∈ m.body, ∃ args, table.call? line = some (n, args)

/-- No macro leads back to itself by calls as they are written. -/
def IsAcyclic (table : MacroTable) : Prop :=
  ∀ d, ¬ Relation.TransGen table.Calls d d

/-- The call `inner` stands in the body of the call `outer` when its arguments are put in. -/
def Nests (table : MacroTable) (outer inner : MacroDef × List Text) : Prop :=
  ∃ line ∈ outer.1.body,
    table.call? (MacroDef.substitute (outer.1.params.zip outer.2) line) = some inner

/-- Calls that are expanded within one another, the outermost one first. -/
structure IsNest (table : MacroTable) (calls : List (MacroDef × List Text)) : Prop where
  nests : calls.IsChain table.Nests
  defined : ∀ c ∈ calls, table.find? c.1.name = some c.1

/-- A nest of calls of different macros around one more call of one of them. -/
structure IsCircle (table : MacroTable) (around : List (MacroDef × List Text))
    (last : MacroDef × List Text) : Prop where
  isNest : table.IsNest (around ++ [last])
  nodup : (around.map (·.1.name)).Nodup
  closes : last.1.name ∈ around.map (·.1.name)

/-- The chain names the calls of a nest that begins on a line of a file, and the last part of the
nest leads from a macro back to it. -/
structure ReportsCycle (table : MacroTable) (files : List SourceFile) (chain : List Text)
    (before cycle : List (MacroDef × List Text)) : Prop where
  names : chain = (before ++ cycle).map (·.1.name)
  isNest : table.IsNest (before ++ cycle)
  written : ∃ f ∈ files, ∃ segs, segmentsOf f = .ok segs ∧
    ∃ line ∈ Text.lines (blankedText segs), table.call? line = (before ++ cycle).head?
  closes : ∃ first between last, cycle = first :: between ++ [last] ∧ first.1 = last.1

variable {table : MacroTable} {files : List SourceFile} {e : CompileError} {d : MacroDef}
  {args chain : List Text} {calls : List (MacroDef × List Text)} {line : Text}

theorem find?_of_call? (h : table.call? line = some (d, args)) : table.find? d.name = some d := by
  obtain ⟨⟨name, text⟩, -, h⟩ := Option.bind_eq_some_iff.1 h
  obtain ⟨d', hfind, h⟩ := Option.bind_eq_some_iff.1 h
  obtain ⟨rfl, -⟩ := Prod.mk.inj (Option.some.inj h)
  have hname : d'.name = name := by simpa using List.find?_some hfind
  exact hname ▸ hfind

theorem IsNest.concat {inner : MacroDef × List Text} (h : table.IsNest (calls ++ [(d, args)]))
    (hinner : table.call? (MacroDef.substitute (d.params.zip args) line) = some inner)
    (hline : line ∈ d.body) : table.IsNest (calls ++ [(d, args)] ++ [inner]) := by
  constructor
  · rw [List.append_assoc]
    exact List.isChain_split.2 ⟨h.nests, List.isChain_pair.2 ⟨line, hline, hinner⟩⟩
  · intro c hc
    rcases List.mem_append.1 hc with hc | hc
    · exact h.defined c hc
    · obtain rfl := List.mem_singleton.1 hc
      exact find?_of_call? hinner

theorem IsNest.length_le (h : table.IsNest calls) (hnodup : (calls.map (·.1.name)).Nodup) :
    calls.length ≤ table.length := by
  have hsubset : calls.map (·.1.name) ⊆ table.map (·.name) := by
    intro name hname
    obtain ⟨c, hc, rfl⟩ := List.mem_map.1 hname
    exact List.mem_map_of_mem (List.mem_of_find?_eq_some (h.defined c hc))
  simpa using (hnodup.subperm hsubset).length_le

/-- A call is circular when a call of the same macro is found around it, at any depth. The budget
is never spent before. -/
theorem exists_isCircle_of_expandCall {budget : Nat} (hnest : table.IsNest (calls ++ [(d, args)]))
    (hnodup : (calls.map (·.1.name)).Nodup) (hbudget : calls.length + budget = table.length + 1)
    (h : table.expandCall budget (calls.map (·.1.name)) d args = .error (.circularMacro chain)) :
    ∃ around last, table.IsCircle around last ∧ chain = (around ++ [last]).map (·.1.name) ∧
      (around ++ [last]).head? = (calls ++ [(d, args)]).head? := by
  induction budget generalizing calls d args with
  | zero =>
    have hcalls : table.IsNest calls :=
      ⟨hnest.nests.left_of_append, fun c hc => hnest.defined c (List.mem_append_left _ hc)⟩
    have hlength := hcalls.length_le hnodup
    omega
  | succ budget ih =>
    unfold expandCall at h
    split at h
    · rename_i hmem
      cases h
      exact ⟨calls, (d, args), ⟨hnest, hnodup, hmem⟩, by simp, rfl⟩
    · rename_i hfresh
      split at h
      · cases h
      rcases bind_eq_error_iff.1 h with h | ⟨parts, -, h⟩
      · obtain ⟨line, hline, h⟩ := exists_mem_of_mapM_eq_error h
        obtain ⟨raw, hraw, rfl⟩ := List.mem_map.1 hline
        split at h
        · rename_i inner innerArgs hcall
          have hnames : calls.map (·.1.name) ++ [d.name] =
              (calls ++ [(d, args)]).map (·.1.name) := by simp
          have hnodup' : ((calls ++ [(d, args)]).map (·.1.name)).Nodup := by
            rw [← hnames, ← List.concat_eq_append]
            exact hnodup.concat hfresh
          rw [hnames] at h
          obtain ⟨around, last, hcircle, hchain, hhead⟩ := ih (hnest.concat hcall hraw) hnodup'
            (by rw [List.length_append, List.length_singleton]; omega) h
          exact ⟨around, last, hcircle, hchain, hhead.trans (by simp)⟩
        · cases h
      · cases h

theorem IsCircle.exists_eq_append {around : List (MacroDef × List Text)}
    {last : MacroDef × List Text} (h : table.IsCircle around last) :
    ∃ before first between, around = before ++ first :: between ∧ first.1 = last.1 := by
  obtain ⟨first, hfirst, hname⟩ := List.mem_map.1 h.closes
  obtain ⟨before, between, rfl⟩ := List.append_of_mem hfirst
  refine ⟨before, first, between, rfl, ?_⟩
  have hdefined := h.isNest.defined first (List.mem_append_left _ hfirst)
  rw [hname, h.isNest.defined last (by simp)] at hdefined
  exact (Option.some.inj hdefined).symm

/-- Where expansion fails with a circular macro. -/
theorem exists_reportsCycle (htable : ofFiles files = .ok table) (h : expandMacros files = .error e)
    (hcause : e.cause = .circularMacro chain) :
    ∃ before cycle, table.ReportsCycle files chain before cycle := by
  unfold expandMacros at h
  rw [htable] at h
  obtain ⟨f, hf, h⟩ := exists_mem_of_mapM_eq_error h
  rcases bind_eq_error_iff.1 h with h | ⟨segs, hsegs, h⟩
  · unfold segmentsOf at h
    split at h <;> cases h
    cases hcause
  rcases bind_eq_error_iff.1 h with h | ⟨ls, -, h⟩
  · rcases bind_eq_error_iff.1 h with h | ⟨parts, -, h⟩
    · obtain ⟨⟨n, line⟩, hline, h⟩ := exists_mem_of_mapM_eq_error h
      dsimp only at h
      split at h
      · cases h
      split at h
      · cases h
      rename_i cause hexpand
      cases h
      obtain rfl : cause = .circularMacro chain := hcause
      unfold expandLine at hexpand
      split at hexpand
      · rename_i d args hcall
        have hstart : table.IsNest ([] ++ [(d, args)]) := by
          refine ⟨.singleton _, fun c hc => ?_⟩
          obtain rfl := List.mem_singleton.1 hc
          exact find?_of_call? hcall
        obtain ⟨around, last, hcircle, hchain, hhead⟩ :=
          exists_isCircle_of_expandCall hstart .nil (Nat.zero_add _) hexpand
        obtain ⟨before, first, between, rfl, hsame⟩ := hcircle.exists_eq_append
        have hnest := hcircle.isNest
        rw [List.append_assoc] at hchain hhead hnest
        refine ⟨before, first :: between ++ [last], hchain, hnest,
          ⟨f, hf, segs, hsegs, line, ?_, ?_⟩, first, between, last, rfl, hsame⟩
        · have hmap := SourceFile.map_snd_numberedLines { path := f.path, text := blankedText segs }
          rw [← hmap]
          exact List.mem_map_of_mem hline
        · rw [hcall, hhead]
          rfl
      · cases hexpand
    · cases h
  · cases h

/-- A way back to the same macro by calls as they are written is none of acyclic macros. -/
theorem IsAcyclic.not_isChain {first last : MacroDef × List Text}
    {between : List (MacroDef × List Text)} (h : table.IsAcyclic) (hsame : first.1 = last.1) :
    ¬ (first :: between ++ [last]).IsChain fun outer inner => table.Calls outer.1 inner.1 := by
  intro hchain
  have htrans :
      ((first :: between ++ [last]).map Prod.fst).IsChain (Relation.TransGen table.Calls) :=
    (List.isChain_map Prod.fst).2 (hchain.imp fun _ _ => .single)
  have hpairwise := List.isChain_iff_pairwise.1 htrans
  rw [List.cons_append, List.map_cons, List.pairwise_cons] at hpairwise
  exact h first.1 (hpairwise.1 first.1 (by simp [hsame]))

theorem isAcyclic_of_rank (rank : MacroDef → Nat)
    (h : ∀ m ∈ table, ∀ line ∈ m.body, ∀ c ∈ table.call? line, rank c.1 < rank m) :
    table.IsAcyclic := by
  have hcalls {m n : MacroDef} (hmn : table.Calls m n) : rank n < rank m := by
    obtain ⟨hm, line, hline, args, hcall⟩ := hmn
    exact h m hm line hline (n, args) hcall
  have hlt {m n : MacroDef} (hmn : Relation.TransGen table.Calls m n) : rank n < rank m := by
    induction hmn with
    | single hmn => exact hcalls hmn
    | tail _ hmn ih => exact Nat.lt_trans (hcalls hmn) ih
  exact fun d hd => Nat.lt_irrefl _ (hlt hd)

/-- Macros that do not lead back to themselves as they are written are reported as circular only
where an argument makes a call: on the reported way from a macro back to it, some call is on no body
line of the macro that it is reached from. -/
theorem exists_carried_of_circularMacro (htable : ofFiles files = .ok table)
    (hacyclic : table.IsAcyclic) (h : expandMacros files = .error e)
    (hcause : e.cause = .circularMacro chain) :
    ∃ before cycle, table.ReportsCycle files chain before cycle ∧
      ∃ outer inner, [outer, inner] <:+: cycle ∧ ¬ table.Calls outer.1 inner.1 := by
  obtain ⟨before, cycle, hreports⟩ := exists_reportsCycle htable h hcause
  refine ⟨before, cycle, hreports, ?_⟩
  by_contra hnone
  obtain ⟨first, between, last, rfl, hsame⟩ := hreports.closes
  have hpairs := List.isChain_isInfix (first :: between ++ [last])
  refine hacyclic.not_isChain hsame (hpairs.imp fun outer inner hpair => ?_)
  by_contra hcalls
  exact hnone ⟨outer, inner, hpair, hcalls⟩

/-- A call in the argument of a call is passed on to another macro and calls the first one there. -/
theorem exists_carried_of_circularMacro_wrap :
    ∃ files table e chain, ofFiles files = .ok table ∧ table.IsAcyclic ∧
      expandMacros files = .error e ∧ e.cause = .circularMacro chain ∧
      chain = ["wrap".toList, "twice".toList, "wrap".toList] ∧
      ∃ before cycle, table.ReportsCycle files chain before cycle ∧
        ∃ outer inner, [outer, inner] <:+: cycle ∧ ¬ table.Calls outer.1 inner.1 := by
  let files : List SourceFile :=
    [{ path := "f.s".toList
       text :=
        "macro wrap(x) ".toList ++ '{' :: "\n  mov R0, 1\n  twice(x)\n".toList ++
          '}' :: "\nmacro twice(y) ".toList ++ '{' :: "\n  y\n  y\n".toList ++
          '}' :: "\nwrap(ret)\nwrap(wrap(ret))\n".toList }]
  let wrap : MacroDef :=
    { name := "wrap".toList, params := ["x".toList], file := "f.s".toList
      body := ["mov R0, 1".toList, "twice(x)".toList] }
  let twice : MacroDef :=
    { name := "twice".toList, params := ["y".toList], file := "f.s".toList
      body := ["y".toList, "y".toList] }
  let e : CompileError :=
    { stage := .expand, cause := .circularMacro ["wrap".toList, "twice".toList, "wrap".toList]
      file := some "f.s".toList, line := some 10, source := some "wrap(wrap(ret))".toList }
  have htable : ofFiles files = .ok [wrap, twice] := by decide +kernel
  have herror : expandMacros files = .error e := by decide +kernel
  have hacyclic : IsAcyclic [wrap, twice] :=
    isAcyclic_of_rank (fun d => if d.name = "wrap".toList then 1 else 0) (by decide +kernel)
  exact ⟨files, _, e, _, htable, hacyclic, herror, rfl, rfl,
    exists_carried_of_circularMacro htable hacyclic herror rfl⟩

/-- A macro of one line, its parameter, is circular when it is called with a call of itself. -/
theorem exists_circularMacro_of_isAcyclic :
    ∃ files table e text,
      text = "macro A(x) ".toList ++ '{' :: "\nx\n".toList ++ '}' :: "\nA(A(1))\n".toList ∧
      files = [⟨"main.s".toList, text, []⟩] ∧
      ofFiles files = .ok table ∧ table.IsAcyclic ∧ expandMacros files = .error e ∧
      e.cause = .circularMacro ["A".toList, "A".toList] := by
  let d : MacroDef :=
    { name := "A".toList, params := ["x".toList], body := ["x".toList], file := "main.s".toList }
  let e : CompileError :=
    { stage := .expand, cause := .circularMacro ["A".toList, "A".toList]
      file := some "main.s".toList, line := some 4, source := some "A(A(1))".toList }
  have hacyclic : IsAcyclic [d] := isAcyclic_of_rank (fun _ => 0) (by decide +kernel)
  exact ⟨_, [d], e, _, rfl, rfl, by decide +kernel, hacyclic, by decide +kernel, rfl⟩

end MacroTable

end RegisterMachine
