import RegisterMachine.Proofs.Macro.Chains

/-!
# The depth of an expansion

The text that arguments make of a body can hold any call, so nothing in it gets smaller from one
call to the next one within. What gets smaller is the number of macros that are not yet expanded
around the call: a nest of different macros is no longer than the table, and one call more is
circular. `Expands` follows the expansion of a call without a bound on the calls within. Every call
of a macro of the table has exactly one such expansion, which is the one that `expandCall` finds
within its budget (`exists_expands_of_defined`).
-/

namespace RegisterMachine.MacroTable

mutual

/-- The call of `d` within the calls of `chain` has the given result, and calls are nested to the
given depth in it, itself included. -/
inductive Expands (table : MacroTable) :
    Nat → List Text → MacroDef → List Text → Except CompileError.Cause (List Text) → Prop
  | circular {chain args : List Text} {d : MacroDef} (hmem : d.name ∈ chain) :
    Expands table 1 chain d args (.error (.circularMacro (chain ++ [d.name])))
  | arity {chain args : List Text} {d : MacroDef} (hfresh : d.name ∉ chain)
    (hargs : args.length ≠ d.params.length) :
    Expands table 1 chain d args (.error (.macroArity d.name d.params.length args.length))
  | body {depth : Nat} {chain args : List Text} {d : MacroDef}
    {result : Except CompileError.Cause (List Text)} (hfresh : d.name ∉ chain)
    (hargs : args.length = d.params.length)
    (hbody : ExpandsLines table depth (chain ++ [d.name])
      (d.body.map (MacroDef.substitute (d.params.zip args))) result) :
    Expands table (depth + 1) chain d args result

/-- The lines have the given result within the calls of `chain`, up to the first call that fails. -/
inductive ExpandsLines (table : MacroTable) :
    Nat → List Text → List Text → Except CompileError.Cause (List Text) → Prop
  | nil {chain : List Text} : ExpandsLines table 0 chain [] (.ok [])
  | plain {depth : Nat} {chain later : List Text} {line : Text}
    {result : Except CompileError.Cause (List Text)} (hline : table.call? line = none)
    (hlater : ExpandsLines table depth chain later result) :
    ExpandsLines table depth chain (line :: later) (result.map (line :: ·))
  | call {depth depth' : Nat} {chain later args ls : List Text} {line : Text} {inner : MacroDef}
    {result : Except CompileError.Cause (List Text)}
    (hline : table.call? line = some (inner, args))
    (hcall : Expands table depth chain inner args (.ok ls))
    (hlater : ExpandsLines table depth' chain later result) :
    ExpandsLines table (max depth depth') chain (line :: later) (result.map (ls ++ ·))
  | failed {depth : Nat} {chain later args : List Text} {line : Text} {inner : MacroDef}
    {cause : CompileError.Cause} (hline : table.call? line = some (inner, args))
    (hcall : Expands table depth chain inner args (.error cause)) :
    ExpandsLines table depth chain (line :: later) (.error cause)

end

variable {table : MacroTable} {depth depth' budget : Nat} {chain args lines : List Text}
  {d : MacroDef} {result result' : Except CompileError.Cause (List Text)}

theorem Expands.unique (h : table.Expands depth chain d args result)
    (h' : table.Expands depth' chain d args result') : depth' = depth ∧ result' = result := by
  induction h using Expands.rec (motive_2 := fun depth chain lines result _ =>
    ∀ depth' result', table.ExpandsLines depth' chain lines result' →
      depth' = depth ∧ result' = result) generalizing depth' result' with
  | circular hmem =>
    cases h' with
    | circular => exact ⟨rfl, rfl⟩
    | arity hfresh | body hfresh => exact absurd hmem hfresh
  | arity hfresh hargs =>
    cases h' with
    | circular hmem => exact absurd hmem hfresh
    | arity => exact ⟨rfl, rfl⟩
    | body _ hargs' => exact absurd hargs' hargs
  | body hfresh hargs _ ih =>
    cases h' with
    | circular hmem => exact absurd hmem hfresh
    | arity _ hargs' => exact absurd hargs hargs'
    | body _ _ hbody =>
      obtain ⟨rfl, rfl⟩ := ih _ _ hbody
      exact ⟨rfl, rfl⟩
  | nil =>
    rename_i h'
    cases h'
    exact ⟨rfl, rfl⟩
  | plain hline _ ih =>
    rename_i h'
    cases h' with
    | plain _ hlater =>
      obtain ⟨rfl, rfl⟩ := ih _ _ hlater
      exact ⟨rfl, rfl⟩
    | call hline' | failed hline' => rw [hline] at hline'; cases hline'
  | call hline _ _ ihcall ihlater =>
    rename_i h'
    cases h' with
    | plain hline' => rw [hline] at hline'; cases hline'
    | call hline' hcall hlater =>
      rw [hline] at hline'
      cases hline'
      obtain ⟨rfl, hls⟩ := ihcall hcall
      obtain ⟨rfl, rfl⟩ := ihlater _ _ hlater
      cases hls
      exact ⟨rfl, rfl⟩
    | failed hline' hcall =>
      rw [hline] at hline'
      cases hline'
      cases (ihcall hcall).2
  | failed hline _ ih =>
    rename_i h'
    cases h' with
    | plain hline' => rw [hline] at hline'; cases hline'
    | call hline' hcall =>
      rw [hline] at hline'
      cases hline'
      cases (ih hcall).2
    | failed hline' hcall =>
      rw [hline] at hline'
      cases hline'
      obtain ⟨rfl, hcause⟩ := ih hcall
      cases hcause
      exact ⟨rfl, rfl⟩

theorem exists_expandsLines (lines : List Text)
    (hcalls : ∀ inner args, table.find? inner.name = some inner →
      ∃ depth ≤ budget, table.Expands depth chain inner args
        (table.expandCall budget chain inner args)) :
    ∃ depth ≤ budget, table.ExpandsLines depth chain lines
      ((lines.mapM (table.expandBodyLine budget chain)).map List.flatten) := by
  induction lines with
  | nil => exact ⟨0, Nat.zero_le _, .nil⟩
  | cons line lines ih =>
    obtain ⟨depth, hdepth, hlater⟩ := ih
    rw [List.mapM_cons]
    cases hline : table.call? line with
    | none =>
      refine ⟨depth, hdepth, ?_⟩
      have hplain := ExpandsLines.plain hline hlater
      rw [expandBodyLine, hline]
      cases hparts : lines.mapM (table.expandBodyLine budget chain) <;> rw [hparts] at hplain <;>
        exact hplain
    | some call =>
      obtain ⟨inner, args⟩ := call
      obtain ⟨depth', hdepth', hcall⟩ := hcalls inner args (find?_of_call? hline)
      rw [expandBodyLine, hline]
      dsimp only
      cases hls : table.expandCall budget chain inner args with
      | error cause =>
        rw [hls] at hcall
        exact ⟨depth', hdepth', .failed hline hcall⟩
      | ok ls =>
        rw [hls] at hcall
        refine ⟨max depth' depth, Nat.max_le.2 ⟨hdepth', hdepth⟩, ?_⟩
        have hboth := ExpandsLines.call hline hcall hlater
        cases hparts : lines.mapM (table.expandBodyLine budget chain) <;> rw [hparts] at hboth <;>
          exact hboth

/-- A call expands within the number of macros that are not expanded around it, and one more. -/
theorem exists_expands (hd : table.find? d.name = some d) (args : List Text) (hnodup : chain.Nodup)
    (hdefined : chain ⊆ table.map (·.name)) (hbudget : chain.length + budget = table.length + 1) :
    ∃ depth ≤ budget, table.Expands depth chain d args (table.expandCall budget chain d args) := by
  induction budget generalizing chain d args with
  | zero =>
    have hlength := (hnodup.subperm hdefined).length_le
    rw [List.length_map] at hlength
    omega
  | succ budget ih =>
    by_cases hfresh : d.name ∈ chain
    · rw [expandCall, if_pos hfresh]
      exact ⟨1, Nat.le_add_left _ _, .circular hfresh⟩
    by_cases hargs : args.length = d.params.length
    · have hnodup' : (chain ++ [d.name]).Nodup := by
        rw [← List.concat_eq_append]
        exact hnodup.concat hfresh
      have hdefined' : chain ++ [d.name] ⊆ table.map (·.name) :=
        List.append_subset.2 ⟨hdefined, List.cons_subset.2
          ⟨List.mem_map_of_mem (List.mem_of_find?_eq_some hd), List.nil_subset _⟩⟩
      obtain ⟨depth, hdepth, hbody⟩ := exists_expandsLines
        (d.body.map (MacroDef.substitute (d.params.zip args))) fun inner innerArgs hinner =>
          ih hinner innerArgs hnodup' hdefined'
            (by rw [List.length_append, List.length_singleton]; omega)
      rw [expandCall_of_fresh hfresh hargs]
      exact ⟨depth + 1, Nat.succ_le_succ hdepth, .body hfresh hargs hbody⟩
    · rw [expandCall, if_neg hfresh, if_pos hargs]
      exact ⟨1, Nat.le_add_left _ _, .arity hfresh hargs⟩

/-- Every call of a macro of the table has exactly one expansion, calls are nested in it at most one
deeper than there are macros, and it is the one that `expandCall` finds. If that fails with a
circular macro, the reported chain names calls of which each stands in the body of the one before,
with its arguments put in: it begins with the call itself, its macros are different, and then it
comes back to one of them. -/
theorem exists_expands_of_defined (hd : table.find? d.name = some d) (args : List Text) :
    ∃ depth ≤ table.length + 1,
      table.Expands depth [] d args (table.expandCall (table.length + 1) [] d args) ∧
      (∀ depth' result, table.Expands depth' [] d args result →
        depth' = depth ∧ result = table.expandCall (table.length + 1) [] d args) ∧
      ∀ chain, table.expandCall (table.length + 1) [] d args = .error (.circularMacro chain) →
        ∃ around last, table.IsCircle around last ∧ chain = (around ++ [last]).map (·.1.name) ∧
          (around ++ [last]).head? = some (d, args) := by
  obtain ⟨depth, hdepth, hexpands⟩ :=
    exists_expands hd args .nil (List.nil_subset _) (Nat.zero_add _)
  refine ⟨depth, hdepth, hexpands, fun depth' result => hexpands.unique, fun chain h => ?_⟩
  have hstart : table.IsNest ([] ++ [(d, args)]) :=
    ⟨.singleton _, List.forall_mem_singleton.2 hd⟩
  exact exists_isCircle_of_expandCall hstart .nil (Nat.zero_add _) h

/-- Two macros that call each other, one of them behind a line that is no call. -/
theorem exists_expands_of_defined_mutual :
    ∃ table : MacroTable, ∃ d args chain, table.length = 2 ∧ table.find? d.name = some d ∧
      table.expandCall 3 [] d args = .error (.circularMacro chain) ∧
      chain = ["a".toList, "b".toList, "a".toList] ∧
      (∃ depth ≤ 3, table.Expands depth [] d args (.error (.circularMacro chain))) ∧
      ∃ around last, table.IsCircle around last ∧ chain = (around ++ [last]).map (·.1.name) ∧
        (around ++ [last]).head? = some (d, args) := by
  let a : MacroDef :=
    { name := "a".toList, params := ["x".toList], body := ["x".toList, "b(x)".toList]
      file := "f.s".toList }
  let b : MacroDef :=
    { name := "b".toList, params := ["y".toList], body := ["a(y)".toList], file := "f.s".toList }
  let args : List Text := ["ret".toList]
  have hd : find? [a, b] a.name = some a := by decide +kernel
  have h : expandCall [a, b] 3 [] a args =
      .error (.circularMacro ["a".toList, "b".toList, "a".toList]) := by decide +kernel
  obtain ⟨depth, hdepth, hexpands, -, hcircle⟩ := exists_expands_of_defined hd args
  exact ⟨[a, b], a, args, _, rfl, hd, h, rfl, ⟨depth, hdepth, h ▸ hexpands⟩, hcircle _ h⟩

end RegisterMachine.MacroTable
