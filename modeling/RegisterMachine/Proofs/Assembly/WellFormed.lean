import RegisterMachine.Proofs.Assembly.Code
import RegisterMachine.Proofs.Assembly.Collection
import RegisterMachine.Proofs.Program.Operand
import RegisterMachine.Proofs.Program.WellFormed

/-!
# Compiled programs are well formed

The kinds of the operands are settled where a line is encoded, by the shape of its opcode; that code
addresses and string indices refer to something is confirmed when the program is linked. Together
they make every instruction of a compiled program well formed.
-/

namespace RegisterMachine

namespace Operand

theorem isSource_of_readImmediate {token : Text} {o : Operand}
    (h : readImmediate token = .ok o) : o.IsSource := by
  simp only [readImmediate] at h
  split at h
  · split at h <;> cases h
    trivial
  · split at h
    · split at h <;> cases h
      trivial
    · split at h <;> cases h
      trivial

theorem isSource_of_read {token : Text} {o : Operand} (h : Operand.read token = .ok o) :
    o.IsSource := by
  unfold Operand.read at h
  split at h
  · cases h
  · rename_i c rest
    split at h
    · split at h <;> cases h
      exact ((index?_eq_some_iff (by decide)).1 (by assumption)).2
    · split at h
      · split at h <;> cases h
        exact ((index?_eq_some_iff (by decide)).1 (by assumption)).2
      · exact isSource_of_readImmediate h

end Operand

namespace Opcode

variable {op : Opcode}

theorem shape_eq_none_iff : op.shape = .none ↔ op ∈ [.ret, .syscall] := by
  cases op <;> decide

theorem shape_eq_label_iff : op.shape = .label ↔ op ∈ [.jmp, .je, .jne, .jg, .jl] := by
  cases op <;> decide

theorem shape_eq_function_iff : op.shape = .function ↔ op = .call := by
  cases op <;> decide

theorem shape_eq_stringLoad_iff : op.shape = .stringLoad ↔ op = .ldstr := by
  cases op <;> decide

end Opcode

namespace Encoding

variable {p : Program} {op : Opcode}

theorem isSource_of_readOperand {token : Text} {o : Operand} (h : readOperand token = .ok o) :
    o.IsSource := by
  unfold readOperand at h
  split at h <;> cases h
  exact Operand.isSource_of_read (by assumption)

/-- What `isGeneral` and `isRegister` test of an operand that was read. -/
theorem IsGeneral.of_isSource {o : Operand} (hs : o.IsSource) (h : isGeneral o = true) :
    o.IsGeneral := by
  cases o with
  | register n => exact hs
  | _ => cases h

theorem IsRegister.of_isSource {o : Operand} (hs : o.IsSource) (h : isRegister o = true) :
    o.IsRegister := by
  cases o with
  | register n | syscallRegister n => exact hs
  | _ => cases h

theorem wellFormed_of_checkPair {destToken srcToken : Text} {dest src : Operand}
    (hop : op.shape = .pair) (hd : dest.IsSource) (hs : src.IsSource)
    (h : checkPair op destToken dest srcToken src = .ok ()) :
    Instruction.WellFormed p ⟨op, [dest, src]⟩ := by
  cases op with
  | mov =>
    simp only [checkPair] at h
    split at h
    · exact .move (IsRegister.of_isSource hd (by assumption)) hs
    · cases h
  | load | store =>
    simp only [checkPair] at h
    split at h
    · cases h
    · rename_i hdest
      split at h
      · cases h
      · rename_i hsrc
        refine .access (by simp) ?_ ?_
        · exact IsGeneral.of_isSource hd (Bool.not_eq_false _ ▸ hdest)
        · exact IsGeneral.of_isSource hs (Bool.not_eq_false _ ▸ hsrc)
  | add | sub | mul | div | and | or | xor | shl | shr | cmp =>
    simp only [checkPair] at h
    split at h
    · exact .combine (by simp) (IsGeneral.of_isSource hd (by assumption)) hs
    · cases h
  | _ => cases hop

theorem wellFormed_of_encodePair {destToken srcToken : Text} {ops : List Operand}
    (hop : op.shape = .pair) (h : encodePair op destToken srcToken = .ok ops) :
    Instruction.WellFormed p ⟨op, ops⟩ := by
  obtain ⟨dest, hdest, h⟩ := bind_eq_ok_iff.1 h
  obtain ⟨src, hsrc, h⟩ := bind_eq_ok_iff.1 h
  obtain ⟨_, hcheck, h⟩ := bind_eq_ok_iff.1 h
  obtain rfl := pure_eq_ok_iff.1 h
  exact wellFormed_of_checkPair hop (isSource_of_readOperand hdest) (isSource_of_readOperand hsrc)
    hcheck

theorem isGeneral_eq_true {o : Operand} (h : o.IsGeneral) : isGeneral o = true := by
  cases o with
  | register n => rfl
  | _ => exact h.elim

theorem isRegister_eq_true {o : Operand} (h : o.IsRegister) : isRegister o = true := by
  cases o with
  | register n | syscallRegister n => rfl
  | _ => exact h.elim

theorem checkPair_of_wellFormed {dest src : Operand} (hop : op.shape = .pair)
    (h : Instruction.WellFormed p ⟨op, [dest, src]⟩) (destToken srcToken : Text) :
    checkPair op destToken dest srcToken src = .ok () := by
  cases h with
  | loadString => cases hop
  | move hd => simp [checkPair, isRegister_eq_true hd]
  | access hmem hd hs =>
    have hmem : op = .load ∨ op = .store := by simpa using hmem
    rcases hmem with rfl | rfl <;> simp [checkPair, isGeneral_eq_true hd, isGeneral_eq_true hs]
  | combine hmem hd =>
    have hcheck : isGeneral dest = true := isGeneral_eq_true hd
    cases op with
    | mov | load | store => exact absurd hmem (by decide)
    | _ => simp [checkPair, hcheck]

theorem readOperand_eq_ok_iff {token : Text} {o : Operand} :
    readOperand token = .ok o ↔ Operand.read token = .ok o := by
  unfold readOperand
  cases Operand.read token <;> simp

/-- A destination and a source are encoded if they are read and suit the opcode. -/
theorem encodePair_eq_ok_iff {destToken srcToken : Text} {ops : List Operand}
    (hop : op.shape = .pair) :
    encodePair op destToken srcToken = .ok ops ↔
      ∃ dest src, Operand.read destToken = .ok dest ∧ Operand.read srcToken = .ok src ∧
        ops = [dest, src] ∧ Instruction.WellFormed p ⟨op, [dest, src]⟩ := by
  constructor
  · intro h
    have hwf : Instruction.WellFormed p ⟨op, ops⟩ := wellFormed_of_encodePair hop h
    obtain ⟨dest, hdest, h⟩ := bind_eq_ok_iff.1 h
    obtain ⟨src, hsrc, h⟩ := bind_eq_ok_iff.1 h
    obtain ⟨_, -, h⟩ := bind_eq_ok_iff.1 h
    obtain rfl := pure_eq_ok_iff.1 h
    exact ⟨dest, src, readOperand_eq_ok_iff.1 hdest, readOperand_eq_ok_iff.1 hsrc, rfl, hwf⟩
  · rintro ⟨dest, src, hdest, hsrc, rfl, hwf⟩
    refine bind_eq_ok_iff.2 ⟨dest, readOperand_eq_ok_iff.2 hdest, ?_⟩
    refine bind_eq_ok_iff.2 ⟨src, readOperand_eq_ok_iff.2 hsrc, ?_⟩
    exact bind_eq_ok_iff.2 ⟨(), checkPair_of_wellFormed hop hwf _ _, rfl⟩

/-- The literal is the one on the line that the first pass kept under the number, and the index is
the one that the first pass gave to it. -/
theorem encodeStringLoad_eq_ok_iff {u : CompilationUnit} {number : Nat} {args : List Text}
    {ops : List Operand} :
    encodeStringLoad u number args = .ok ops ↔
      ∃ token rest n literal index, args = token :: rest ∧
        Operand.read token = .ok (.register n) ∧
        (u.stringLines.lookup number).bind Text.quoted? = some literal ∧
        u.strings.index.lookup literal = some index ∧
        ops = [.register n, .string (UInt32.ofNat index)] := by
  constructor
  · intro h
    unfold encodeStringLoad at h
    split at h
    · cases h
    · rename_i token rest
      split at h
      · rename_i n hread
        split at h
        · cases h
        · rename_i raw hraw
          split at h
          · cases h
          · rename_i literal hliteral
            split at h <;> cases h
            rename_i index hindex
            refine ⟨token, rest, n, literal, index, rfl, hread, ?_, hindex, rfl⟩
            rw [hraw]
            exact hliteral
      · cases h
  · rintro ⟨token, rest, n, literal, index, rfl, hread, hquoted, hindex, rfl⟩
    obtain ⟨raw, hraw, hliteral⟩ := Option.bind_eq_some_iff.1 hquoted
    simp only [encodeStringLoad, hread, hraw, hliteral, hindex]

theorem eq_of_encodeStringLoad {u : CompilationUnit} {number : Nat} {args : List Text}
    {ops : List Operand} (h : encodeStringLoad u number args = .ok ops) :
    ∃ n raw literal index, (Operand.register n).IsGeneral ∧
      u.stringLines.lookup number = some raw ∧ Text.quoted? raw = some literal ∧
      u.strings.index.lookup literal = some index ∧
      ops = [.register n, .string (UInt32.ofNat index)] := by
  obtain ⟨_, _, n, literal, index, -, hread, hquoted, hindex, rfl⟩ :=
    encodeStringLoad_eq_ok_iff.1 h
  obtain ⟨raw, hraw, hliteral⟩ := Option.bind_eq_some_iff.1 hquoted
  exact ⟨n, raw, literal, index, Operand.isSource_of_read hread, hraw, hliteral, hindex, rfl⟩

theorem eq_of_resolve {c : Collection} {i : Nat} {kind : SymbolKind} {name : Text}
    {ops : List Operand} (h : (resolve c i kind name).map ([·]) = .ok ops) :
    ∃ symbol, c.resolve? i kind name = some symbol ∧ ops = [.target symbol.address] := by
  obtain ⟨o, ho, rfl⟩ := map_eq_ok_iff.1 h
  unfold resolve at ho
  split at ho <;> cases ho
  exact ⟨_, by assumption, rfl⟩

theorem wellFormed_of_encodeOperands {c : Collection} {i : Nat} {u : CompilationUnit} {number : Nat}
    {args : List Text} {ops : List Operand} (h : encodeOperands c i u number op args = .ok ops)
    (hin : ∀ o ∈ ops, Link.inRange p o = true) : Instruction.WellFormed p ⟨op, ops⟩ := by
  unfold encodeOperands at h
  split at h <;> rename_i hop
  · cases h
    exact .plain (Opcode.shape_eq_none_iff.1 hop)
  · obtain ⟨symbol, -, rfl⟩ := eq_of_resolve h
    have hmem := Opcode.shape_eq_label_iff.1 hop
    refine .jump (List.mem_append_left [Opcode.call] hmem) ?_
    simpa [Link.inRange] using hin
  · obtain ⟨symbol, -, rfl⟩ := eq_of_resolve h
    obtain rfl := Opcode.shape_eq_function_iff.1 hop
    refine .jump (by simp) ?_
    simpa [Link.inRange] using hin
  · obtain rfl := Opcode.shape_eq_stringLoad_iff.1 hop
    obtain ⟨_, _, _, index, hd, -, -, -, rfl⟩ := eq_of_encodeStringLoad h
    refine .loadString hd ?_
    simpa [Link.inRange] using hin (.string (UInt32.ofNat index)) (by simp)
  · exact wellFormed_of_encodePair hop h
  · cases h

/-- A line is encoded through its mnemonic and the tokens behind it. -/
theorem encodeLine_eq_ok_iff {c : Collection} {i : Nat} {u : CompilationUnit} {number : Nat}
    {code : Text} {instr : Instruction} :
    encodeLine c i u number code = .ok instr ↔
      ∃ mnemonic args, tokens code = mnemonic :: args ∧
        Opcode.ofMnemonic? mnemonic = some instr.opcode ∧
        encodeOperands c i u number instr.opcode args = .ok instr.operands := by
  constructor
  · intro h
    unfold encodeLine at h
    split at h
    · cases h
    · rename_i mnemonic args htokens
      split at h
      · cases h
      · rename_i op hop
        obtain ⟨ops, hops, rfl⟩ := map_eq_ok_iff.1 h
        exact ⟨mnemonic, args, htokens, hop, hops⟩
  · rintro ⟨mnemonic, args, htokens, hop, hops⟩
    simp only [encodeLine, htokens, hop]
    exact map_eq_ok_iff.2 ⟨_, hops, rfl⟩

/-- What a line is encoded to is well formed in every program that its operands refer into. -/
theorem wellFormed_of_encodeLine {c : Collection} {i : Nat} {u : CompilationUnit} {number : Nat}
    {code : Text} {instr : Instruction} (h : encodeLine c i u number code = .ok instr)
    (hin : ∀ o ∈ instr.operands, Link.inRange p o = true) : instr.WellFormed p := by
  obtain ⟨_, _, -, -, hops⟩ := encodeLine_eq_ok_iff.1 h
  exact wellFormed_of_encodeOperands hops hin

end Encoding

namespace Link

theorem fault?_eq_none_iff {p : Program} {expected : Nat} :
    fault? expected p = none ↔
      p.size = expected ∧ ∀ i ∈ p.instructions, ∀ o ∈ i.operands, inRange p o = true := by
  unfold fault?
  split
  · rename_i hsize
    rw [List.findSome?_eq_none_iff]
    constructor
    · intro h
      refine ⟨hsize, fun i hi o ho => ?_⟩
      obtain ⟨pc, hpc, rfl⟩ := Array.mem_iff_getElem.1 hi
      have hmem : (p.instructions[pc], pc) ∈ p.instructions.toList.zipIdx := by
        simp [List.mem_zipIdx_iff_getElem?]
      have hnone := h _ hmem
      rw [Option.map_eq_none_iff, List.find?_eq_none] at hnone
      simpa using hnone o ho
    · rintro ⟨-, h⟩ ⟨i, pc⟩ hmem
      have hi : i ∈ p.instructions := Array.mem_toList_iff.1 (List.fst_mem_of_mem_zipIdx hmem)
      rw [Option.map_eq_none_iff, List.find?_eq_none]
      intro o ho
      simp [h i hi o ho]
  · rename_i hsize
    simp [hsize]

end Link

section Programs

variable {paths : List Text} {base : Offsets} {files : List SourceFile}
  {units : List CompilationUnit} {code : List (Instruction × SourceLocation)}

theorem CompilationUnit.Collects.encodes (h : Collects paths base files units)
    (hcode : Link.code (.ofUnits units) files = .ok code) :
    List.Forall₂ (Link.Encodes (.ofUnits units) files) (linkedLines files) code :=
  Link.forall₂_of_code h.forall₂.length_eq.symm hcode

/-- Every instruction of the linked program is the encoding of a line. -/
theorem CompilationUnit.Collects.exists_encodeLine (h : Collects paths base files units)
    (hcode : Link.code (.ofUnits units) files = .ok code) {instr : Instruction}
    (hi : instr ∈ (Link.program units code).instructions) :
    ∃ i number text, ∃ u ∈ units,
      Encoding.encodeLine (.ofUnits units) i u number text = .ok instr := by
  obtain ⟨x, hx, rfl⟩ : ∃ x ∈ code, x.1 = instr := by simpa [Link.program] using hi
  obtain ⟨line, -, f, u, -, hu, hline⟩ := exists_mem_of_forall₂ (h.encodes hcode) hx
  exact ⟨_, _, _, u, List.mem_of_getElem? hu, Encoding.encodeLine_of_encodeCodeLine hline⟩

end Programs

/-- What linking makes of files is the code of their units with the tables of their units, and
nothing in it refers to something that is not there. -/
theorem eq_program_of_link {files : List SourceFile} {p : Program} (h : link files = .ok p) :
    ∃ units code, CompilationUnit.collectAll files = .ok units ∧
      Link.code (.ofUnits units) files = .ok code ∧ p = Link.program units code ∧
      Link.fault? (units.foldl (· + ·.instructionCount) 0) p = none := by
  obtain ⟨units, hunits, h⟩ := bind_eq_ok_iff.1 h
  dsimp only at h
  split at h
  · obtain ⟨_, hthrow, -⟩ := bind_eq_ok_iff.1 h
    exact (throw_ne_ok hthrow).elim
  · obtain ⟨code, hcode, h⟩ := bind_eq_ok_iff.1 h
    split at h
    · exact (throw_ne_ok h).elim
    · rename_i hfault
      obtain rfl := pure_eq_ok_iff.1 h
      exact ⟨units, code, hunits, hcode, rfl, hfault⟩

theorem wellFormed_of_compile {files : List SourceFile} {p : Program} (h : compile files = .ok p) :
    ∀ i ∈ p.instructions, i.WellFormed p := by
  intro i hi
  obtain ⟨expanded, -, h⟩ := bind_eq_ok_iff.1 h
  obtain ⟨units, code, hunits, hcode, hp, hfault⟩ := eq_program_of_link h
  have hin := (Link.fault?_eq_none_iff.1 hfault).2 i hi
  have hcollects := CompilationUnit.collects_of_collectAll hunits
  obtain ⟨_, _, _, u, -, hline⟩ := hcollects.exists_encodeLine hcode (hp ▸ hi)
  exact Encoding.wellFormed_of_encodeLine hline hin

end RegisterMachine
