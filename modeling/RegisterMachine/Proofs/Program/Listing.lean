import RegisterMachine.Program.Listing
import RegisterMachine.Proofs.Text.Rows

/-!
# What listings show

The lines of instructions cut a listing into gaps, one in front of every instruction and one behind
the last. The gap at an address holds the marks of all labels there, but the header of one function
only, the last that the table has for the address. Every line is printed in rows that hold no line
end of their own as long as the names in the tables hold none, so the text consists of those rows.
-/

namespace RegisterMachine

section Cut

variable {α β : Type} {q : β → Bool} {f : α → List β} {g : α → β} {tail : List β}

/-- Blocks that end in the only entry with the property are the pieces of the whole. -/
theorem splitOnP_flatMap_append (hf : ∀ x, ∀ y ∈ f x, q y = false) (hg : ∀ x, q (g x) = true)
    (htail : ∀ y ∈ tail, q y = false) (xs : List α) :
    (xs.flatMap (fun x => f x ++ [g x]) ++ tail).splitOnP q = xs.map f ++ [tail] := by
  induction xs with
  | nil => exact List.splitOnP_eq_singleton htail
  | cons x xs ih =>
    rw [List.flatMap_cons, List.append_assoc, List.append_assoc, List.singleton_append,
      List.splitOnP_append_cons_of_forall_mem (hf x) _ (hg x), ih]
    rfl

theorem filter_flatMap_append (hf : ∀ x, ∀ y ∈ f x, q y = false) (hg : ∀ x, q (g x) = true)
    (htail : ∀ y ∈ tail, q y = false) (xs : List α) :
    (xs.flatMap (fun x => f x ++ [g x]) ++ tail).filter q = xs.map g := by
  have hblock (x : α) : (f x ++ [g x]).filter q = [g x] := by
    have hnil : (f x).filter q = [] := List.filter_eq_nil_iff.2 fun y hy => by simp [hf x y hy]
    simp [hnil, hg]
  have hnil : tail.filter q = [] := List.filter_eq_nil_iff.2 fun y hy => by simp [htail y hy]
  rw [List.filter_append, List.filter_flatMap, hnil, List.append_nil]
  simp only [hblock]
  exact List.map_eq_flatMap.symm

end Cut

namespace ListingLine

def isInstruction : ListingLine → Bool
  | instruction .. => true
  | _ => false

def isLabelMark : ListingLine → Bool
  | labelMark _ => true
  | _ => false

end ListingLine

namespace Opcode

theorem isControlFlow_iff {op : Opcode} :
    op.isControlFlow = true ↔ op ∈ [.jmp, .je, .jne, .jg, .jl, .call] := by
  cases op <;> decide

end Opcode

namespace Program

variable {p : Program} {a : UInt32} {s : Symbol}

/-- The lines in front of the instruction at `n` and behind the one before it. At the length of the
program these are the lines behind its last instruction. -/
def gap (p : Program) (n : Nat) : List ListingLine :=
  (p.listing.splitOnP (·.isInstruction)).getD n []

/-- A jump or a call of the program leads to the address. -/
def LeadsTo (p : Program) (a : UInt32) : Prop :=
  ∃ i ∈ p.instructions, i.opcode ∈ [.jmp, .je, .jne, .jg, .jl, .call] ∧ .target a ∈ i.operands

/-- No function behind it in the table starts at the same address. -/
def IsLast (p : Program) (s : Symbol) : Prop :=
  ∃ before after, p.functions.toList = before ++ s :: after ∧ ∀ t ∈ after, t.address ≠ s.address

theorem mem_jumpTargets_iff : a ∈ p.jumpTargets ↔ p.LeadsTo a := by
  simp only [jumpTargets, List.mem_flatMap, List.mem_filter, List.mem_filterMap,
    Array.mem_toList_iff, Opcode.isControlFlow_iff, LeadsTo]
  constructor
  · rintro ⟨i, ⟨hi, hop⟩, o, ho, ha⟩
    cases o <;> cases ha
    exact ⟨i, hi, hop, ho⟩
  · rintro ⟨i, hi, hop, ho⟩
    exact ⟨i, ⟨hi, hop⟩, .target a, ho, rfl⟩

/-- The lines of what is declared at the address of an instruction. -/
def declared (p : Program) (a : UInt32) : List ListingLine :=
  (p.functionAt? a).toList.map (.functionHeader ·.name) ++ (p.labelsAt a).map (.labelMark ·.name)

theorem isInstruction_of_mem_declared : ∀ l ∈ p.declared a, l.isInstruction = false := by
  simp [declared, or_imp, forall_and, ListingLine.isInstruction]

/-- The gaps in order: one for each instruction, and the end of the listing. -/
theorem splitOnP_listing :
    p.listing.splitOnP (·.isInstruction) =
      p.instructions.toList.zipIdx.map (fun (_, pc) => p.declared (UInt32.ofNat pc)) ++
        [(p.labelsAt (UInt32.ofNat p.size)).map (.endLabel ·.name)] :=
  splitOnP_flatMap_append (g := fun (i, pc) => .instruction pc (UInt32.ofNat pc ∈ p.jumpTargets) i)
    (fun _ => isInstruction_of_mem_declared) (fun _ => rfl)
    (by simp [ListingLine.isInstruction]) p.instructions.toList.zipIdx

/-- The lines of instructions are the instructions in order. -/
theorem filter_listing :
    p.listing.filter (·.isInstruction) = p.instructions.toList.zipIdx.map fun (i, pc) =>
      .instruction pc (UInt32.ofNat pc ∈ p.jumpTargets) i :=
  filter_flatMap_append (f := fun (_, pc) => p.declared (UInt32.ofNat pc))
    (fun _ => isInstruction_of_mem_declared) (fun _ => rfl)
    (by simp [ListingLine.isInstruction]) p.instructions.toList.zipIdx

theorem gap_of_lt (h : a.toNat < p.size) : p.gap a.toNat = p.declared a := by
  have hlt : a.toNat < p.instructions.size := h
  have hget : p.instructions.toList.zipIdx[a.toNat]? = some (p.instructions[a.toNat], a.toNat) := by
    simp [hlt]
  rw [gap, splitOnP_listing, List.getD_eq_getElem?_getD,
    List.getElem?_append_left (by simpa using hlt), List.getElem?_map, hget]
  simp

theorem gap_of_eq (h : a.toNat = p.size) :
    p.gap a.toNat = (p.labelsAt a).map (.endLabel ·.name) := by
  have hlength : (p.instructions.toList.zipIdx.map fun (_, pc) =>
      p.declared (UInt32.ofNat pc)).length = a.toNat := by
    simp [h, size]
  rw [gap, splitOnP_listing, List.getD_eq_getElem?_getD, List.getElem?_append_right (by omega),
    hlength, Nat.sub_self, ← h]
  simp

theorem functionAt?_eq_some_iff : p.functionAt? a = some s ↔ s.address = a ∧ p.IsLast s := by
  rw [functionAt?, List.find?_eq_some_iff_append]
  simp only [beq_iff_eq, Bool.not_eq_true', beq_eq_false_iff_ne, IsLast]
  refine and_congr_right fun ha => ?_
  subst ha
  constructor
  · rintro ⟨after, before, hsplit, hafter⟩
    refine ⟨before.reverse, after.reverse, ?_, by simpa using hafter⟩
    rw [← List.reverse_reverse p.functions.toList, hsplit]
    simp
  · rintro ⟨before, after, hsplit, hafter⟩
    exact ⟨after.reverse, before.reverse, by simp [hsplit], by simpa using hafter⟩

/-- An address has the header of the last function there, and no other. -/
theorem functionHeader_mem_gap_iff (h : s.address.toNat < p.size) :
    .functionHeader s.name ∈ p.gap s.address.toNat ↔ p.IsLast s := by
  rw [gap_of_lt h]
  constructor
  · intro hmem
    obtain ⟨t, ht, hname⟩ : ∃ t, p.functionAt? s.address = some t ∧ t.name = s.name := by
      simpa [declared] using hmem
    obtain ⟨haddress, hlast⟩ := functionAt?_eq_some_iff.1 ht
    have hts : t = s := by
      cases t
      cases s
      simp_all
    exact hts ▸ hlast
  · intro hlast
    have hs : p.functionAt? s.address = some s := functionAt?_eq_some_iff.2 ⟨rfl, hlast⟩
    simp [declared, hs]

theorem filter_isLabelMark_gap (h : a.toNat < p.size) :
    (p.gap a.toNat).filter (·.isLabelMark) = (p.labelsAt a).map (.labelMark ·.name) := by
  rw [gap_of_lt h, declared, List.filter_append]
  have hheader : ((p.functionAt? a).toList.map (ListingLine.functionHeader ·.name)).filter
      (·.isLabelMark) = [] := by
    simp [List.filter_eq_nil_iff, ListingLine.isLabelMark]
  have hmarks : ((p.labelsAt a).map (ListingLine.labelMark ·.name)).filter (·.isLabelMark) =
      (p.labelsAt a).map (.labelMark ·.name) := by
    simp [List.filter_eq_self, ListingLine.isLabelMark]
  rw [hheader, hmarks, List.nil_append]

/-- The line of an instruction carries the mark iff a jump or a call leads to it. -/
theorem exists_instruction_of_getElem? {n : Nat} {i : Instruction}
    (h : p.instructions[n]? = some i) :
    ∃ mark, (p.listing.filter (·.isInstruction))[n]? = some (.instruction n mark i) ∧
      (mark = true ↔ p.LeadsTo (UInt32.ofNat n)) := by
  refine ⟨UInt32.ofNat n ∈ p.jumpTargets, ?_, by simp [mem_jumpTargets_iff]⟩
  simp [filter_listing, List.getElem?_map, List.getElem?_zipIdx, h]

end Program

theorem Operand.isRow_text (o : Operand) : Text.IsRow o.text := by
  cases o with
  | float bits => exact Single.isRow_text _ _
  | immediate value => exact Numeral.isRow_ofInt _
  | _ => simp [Operand.text, Numeral.isRow_ofNat]

namespace Program

open Text (IsRow)

variable {p : Program}

/-- The names in the tables hold no line ends. -/
def HasRowNames (p : Program) : Prop :=
  ∀ s ∈ p.functions.toList ++ p.labels.toList, IsRow s.name

theorem HasRowNames.symbolAt? (h : p.HasRowNames) {address : UInt32} {name : Text}
    (hname : p.symbolAt? address = some name) : IsRow name := by
  obtain ⟨s, hs, rfl⟩ := Option.map_eq_some_iff.1 hname
  exact h s (List.mem_of_find?_eq_some hs)

theorem HasRowNames.operandText (h : p.HasRowNames) (o : Operand) : IsRow (p.operandText o) := by
  cases o with
  | target address =>
    have harrow : IsRow ('→' :: ' ' :: Numeral.padded 4 address.toNat) := by
      simp [Numeral.isRow_padded]
    unfold Program.operandText
    dsimp only
    split
    · rename_i name hname
      simp [h.symbolAt? hname, Numeral.isRow_padded]
    · exact harrow
  | string index =>
    have hnumber := Operand.isRow_text (.string index)
    unfold Program.operandText
    dsimp only
    split
    · simp [hnumber, Text.isRow_escaped]
    · simp [hnumber]
  | _ => simp [Program.operandText, Operand.isRow_text]

theorem HasRowNames.instructionText (h : p.HasRowNames) (i : Instruction) :
    IsRow (p.instructionText i) := by
  have halphanum : (Text.upperCase i.opcode.mnemonic).all Char.isAlphanum = true := by
    cases i.opcode <;> decide
  have hmnemonic : IsRow (Text.upperCase i.opcode.mnemonic) :=
    Text.isRow_of_isAlphanum (List.all_eq_true.1 halphanum)
  refine Text.isRow_trimEnd (Text.isRow_append.2 ⟨Text.isRow_padEnd 8 hmnemonic, ?_⟩)
  refine Text.isRow_join (by simp) fun l hl => ?_
  obtain ⟨o, -, rfl⟩ := List.mem_map.1 hl
  exact h.operandText o

/-- Every line shows a name of a table or an instruction. -/
theorem eq_of_mem_listing {l : ListingLine} (hl : l ∈ p.listing) :
    (∃ s ∈ p.functions.toList ++ p.labels.toList,
        l ∈ [.functionHeader s.name, .labelMark s.name, .endLabel s.name]) ∨
      ∃ pc mark i, l = .instruction pc mark i := by
  rcases List.mem_append.1 hl with hl | hl
  · obtain ⟨⟨i, pc⟩, -, hl⟩ := List.mem_flatMap.1 hl
    simp only [listingAt, List.mem_append, List.mem_map, List.mem_singleton,
      Option.mem_toList] at hl
    rcases hl with (⟨s, hs, rfl⟩ | ⟨s, hs, rfl⟩) | rfl
    · have hmem := List.mem_reverse.1 (List.mem_of_find?_eq_some hs)
      exact .inl ⟨s, List.mem_append_left _ hmem, by simp⟩
    · exact .inl ⟨s, List.mem_append_right _ (List.mem_filter.1 hs).1, by simp⟩
    · exact .inr ⟨_, _, _, rfl⟩
  · obtain ⟨s, hs, rfl⟩ := List.mem_map.1 hl
    exact .inl ⟨s, List.mem_append_right _ (List.mem_filter.1 hs).1, by simp⟩

theorem HasRowNames.rows (h : p.HasRowNames) {l : ListingLine} (hl : l ∈ p.listing) :
    ∀ row ∈ l.rows p, IsRow row := by
  rcases eq_of_mem_listing hl with ⟨s, hs, hl⟩ | ⟨pc, mark, i, rfl⟩
  · have hname : IsRow s.name := h s hs
    simp only [List.mem_cons, List.not_mem_nil, or_false] at hl
    rcases hl with rfl | rfl | rfl <;> simp [ListingLine.rows, hname]
  · have hmark : (if mark then '►' else ' ') ≠ '\n' ∧ (if mark then '►' else ' ') ≠ '\r' := by
      cases mark <;> decide
    simp [ListingLine.rows, Numeral.isRow_padded, hmark, h.instructionText]

/-- The lines of the text are the rows of the lines that the listing has. -/
theorem HasRowNames.lines_listingText (h : p.HasRowNames) :
    Text.lines p.listingText = p.listing.flatMap (·.rows p) := by
  refine Text.lines_unlines_of_isRow fun row hrow => ?_
  obtain ⟨l, hl, hrow⟩ := List.mem_flatMap.1 hrow
  exact h.rows hl row hrow

end Program

end RegisterMachine
