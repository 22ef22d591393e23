import RegisterMachine.Proofs.Assembly.Linking

/-!
# Comparing two compilations

What the two passes look at. A line is encoded alike in two collections that resolve its name and
index its literal alike, up to a renaming of code addresses and literals
(`Encoding.Corresponds.encodeLine`), and two files clash by the names that they declare and by
nothing else (`visibleDuplicate?_eq_none_iff`).
-/

namespace RegisterMachine

namespace Encoding

variable {c c' : Collection} {i i' number number' : Nat} {u u' : CompilationUnit}
variable {op : Opcode} {args : List Text} {ops : List Operand} {φ : Operand → Operand}

/-- Line `number` of unit `i` and line `number'` of unit `i'`, in another collection, refer to the
same things: what a name or a literal is encoded to at the first one becomes, by `φ`, what it is
encoded to at the second. -/
structure Corresponds (φ : Operand → Operand) (c c' : Collection) (i i' : Nat)
    (u u' : CompilationUnit) (number number' : Nat) : Prop where
  fixes : ∀ o : Operand, o.IsSource → φ o = o
  resolves : ∀ kind name s, c.resolve? i kind name = some s →
    ∃ s', c'.resolve? i' kind name = some s' ∧ φ (.target s.address) = .target s'.address
  quotes : (u'.stringLines.lookup number').bind Text.quoted? =
    (u.stringLines.lookup number).bind Text.quoted?
  indexes : ∀ literal index, u.strings.index.lookup literal = some index →
    ∃ index', u'.strings.index.lookup literal = some index' ∧
      φ (.string (UInt32.ofNat index)) = .string (UInt32.ofNat index')

namespace Corresponds

theorem encodeStringLoad (hφ : Corresponds φ c c' i i' u u' number number')
    (h : encodeStringLoad u number args = .ok ops) :
    Encoding.encodeStringLoad u' number' args = .ok (ops.map φ) := by
  obtain ⟨token, rest, n, literal, index, rfl, hread, hliteral, hlookup, rfl⟩ :=
    encodeStringLoad_eq_ok_iff.1 h
  obtain ⟨index', hlookup', hstring⟩ := hφ.indexes literal index hlookup
  have hregister : φ (.register n) = .register n := hφ.fixes _ (Operand.isSource_of_read hread)
  refine encodeStringLoad_eq_ok_iff.2
    ⟨token, rest, n, literal, index', rfl, hread, hφ.quotes.trans hliteral, hlookup', ?_⟩
  rw [List.map_cons, List.map_singleton, hregister, hstring]

theorem map_of_encodePair (hφ : Corresponds φ c c' i i' u u' number number')
    {destToken srcToken : Text} (h : encodePair op destToken srcToken = .ok ops) : ops.map φ = ops := by
  obtain ⟨dest, hdest, h⟩ := bind_eq_ok_iff.1 h
  obtain ⟨src, hsrc, h⟩ := bind_eq_ok_iff.1 h
  obtain ⟨_, -, h⟩ := bind_eq_ok_iff.1 h
  obtain rfl := pure_eq_ok_iff.1 h
  rw [List.map_cons, List.map_singleton, hφ.fixes dest (isSource_of_readOperand hdest),
    hφ.fixes src (isSource_of_readOperand hsrc)]

theorem resolve (hφ : Corresponds φ c c' i i' u u' number number') {kind : SymbolKind} {name : Text}
    (h : (resolve c i kind name).map ([·]) = .ok ops) :
    (Encoding.resolve c' i' kind name).map ([·]) = .ok (ops.map φ) := by
  obtain ⟨s, hs, rfl⟩ := eq_of_resolve h
  obtain ⟨s', hs', htarget⟩ := hφ.resolves kind name s hs
  rw [Encoding.resolve, hs', List.map_singleton, htarget]
  rfl

/-- The same code is encoded alike, up to `φ`. -/
theorem encodeLine (hφ : Corresponds φ c c' i i' u u' number number') {code : Text}
    {instr : Instruction} (h : encodeLine c i u number code = .ok instr) :
    Encoding.encodeLine c' i' u' number' code = .ok ⟨instr.opcode, instr.operands.map φ⟩ := by
  unfold Encoding.encodeLine at h ⊢
  split at h
  · cases h
  · split at h
    · cases h
    · obtain ⟨ops, hops, rfl⟩ := map_eq_ok_iff.1 h
      refine map_eq_ok_iff.2 ⟨ops.map φ, ?_, rfl⟩
      unfold encodeOperands at hops ⊢
      split at hops
      · cases hops
        rfl
      · exact hφ.resolve hops
      · exact hφ.resolve hops
      · exact hφ.encodeStringLoad hops
      · rw [hφ.map_of_encodePair hops]
        exact hops
      · cases hops

end Corresponds

theorem encodeLine_congr {code : Text} {instr : Instruction}
    (hresolve : ∀ kind name s, c.resolve? i kind name = some s → c'.resolve? i' kind name = some s)
    (hquoted : (u'.stringLines.lookup number').bind Text.quoted? =
      (u.stringLines.lookup number).bind Text.quoted?)
    (hstrings : u'.strings = u.strings) (h : encodeLine c i u number code = .ok instr) :
    encodeLine c' i' u' number' code = .ok instr := by
  have hsame : Corresponds id c c' i i' u u' number number' := by
    constructor
    · intro _ _
      rfl
    · intro kind name s hs
      exact ⟨s, hresolve kind name s hs, rfl⟩
    · exact hquoted
    · intro literal index hindex
      exact ⟨index, hstrings ▸ hindex, rfl⟩
  have hline := hsame.encodeLine h
  rwa [List.map_id] at hline

end Encoding

theorem sharedName?_eq_none_iff {kind : SymbolKind} {later earlier : CompilationUnit} :
    sharedName? kind later earlier = none ↔
      ∀ s ∈ later.symbols kind, earlier.find? kind s.name = none := by
  simp [sharedName?]

/-- No name is declared in two files of which one sees the other. -/
theorem visibleDuplicate?_eq_none_iff {units : List CompilationUnit} {g : ImportGraph} :
    visibleDuplicate? units g = none ↔
      ∀ i later, units[i]? = some later → ∀ j earlier, units[j]? = some earlier → j < i →
        g.reaches i j ∨ g.reaches j i → ∀ kind, sharedName? kind later earlier = none := by
  have hkinds {later earlier : CompilationUnit} :
      ([SymbolKind.function, SymbolKind.label].findSome? fun kind =>
        (sharedName? kind later earlier).map fun name =>
          CompileError.inFile
            { stage := .collect, cause := .duplicateSymbol kind name (some earlier.path) }
            later.path) = none ↔ ∀ kind, sharedName? kind later earlier = none := by
    have hstring : sharedName? .string later earlier = none := by
      simp [sharedName?_eq_none_iff, CompilationUnit.symbols]
    simp only [List.findSome?_eq_none_iff, Option.map_eq_none_iff]
    constructor
    · intro h kind
      cases kind with
      | function | label => exact h _ (by simp)
      | string => exact hstring
    · intro h kind _
      exact h kind
  unfold visibleDuplicate?
  rw [List.findSome?_eq_none_iff]
  constructor
  · intro h i later hlater j earlier hearlier hlt hreaches
    have hi := h (later, i) (List.mem_zipIdx_iff_getElem?.2 hlater)
    rw [List.findSome?_eq_none_iff] at hi
    have htake : (units.take i)[j]? = some earlier := by rw [List.getElem?_take_of_lt hlt, hearlier]
    have hj := hi (earlier, j) (List.mem_zipIdx_iff_getElem?.2 htake)
    dsimp only at hj
    rw [if_pos (by simpa using hreaches)] at hj
    exact hkinds.1 hj
  · rintro h ⟨later, i⟩ hlater
    rw [List.findSome?_eq_none_iff]
    rintro ⟨earlier, j⟩ hearlier
    have htake := List.mem_zipIdx_iff_getElem?.1 hearlier
    dsimp only at htake ⊢
    have hlt : j < i := by
      obtain ⟨hlength, -⟩ := List.getElem?_eq_some_iff.1 htake
      rw [List.length_take] at hlength
      omega
    rw [List.getElem?_take_of_lt hlt] at htake
    split
    · rename_i hreaches
      refine hkinds.2 (h i later (List.mem_zipIdx_iff_getElem?.1 hlater) j earlier htake hlt ?_)
      simpa using hreaches
    · rfl

end RegisterMachine
