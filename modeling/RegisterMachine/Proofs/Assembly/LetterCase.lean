import RegisterMachine.Proofs.Assembly.OperandCounts
import RegisterMachine.Proofs.Program.LetterCase

/-!
# Letter case in lines

No line but one that loads a string depends on the case of its letters. The tokens of a folded line
are the folded tokens of the line (`Encoding.tokens_foldCase`), and each of them, be it a mnemonic,
an operand or a name, stands for the same thing in every case; so two lines with one folded form are
encoded alike (`Encoding.encodeLine_eq_ok_iff_of_foldCase`). The literal of a string load is its
text as it stands.
-/

namespace RegisterMachine

open Text

section Names

variable {i : Nat} {name : Text} {kind : SymbolKind}

theorem SymbolTable.find?_foldCase (t : SymbolTable) (name : Text) :
    t.find? (foldCase name) = t.find? name := by
  simp only [find?, foldCase_foldCase]

theorem CompilationUnit.find?_foldCase (u : CompilationUnit) :
    u.find? kind (foldCase name) = u.find? kind name := by
  cases kind with
  | function => exact u.functions.find?_foldCase name
  | label => exact u.labels.find?_foldCase name
  | string => rfl

theorem Collection.resolve?_foldCase (c : Collection) :
    c.resolve? i kind (foldCase name) = c.resolve? i kind name := by
  simp only [resolve?, CompilationUnit.find?_foldCase]

end Names

namespace Encoding

variable {c : Collection} {i number number' : Nat} {u : CompilationUnit} {code code' : Text}
  {op : Opcode} {args : List Text} {ops : List Operand} {instr : Instruction}

theorem tokens_foldCase (code : Text) : tokens (foldCase code) = (tokens code).map foldCase := by
  refine Text.words_map (fun c => ?_) code
  have hcomma : c.toLower = ',' ↔ c = ',' := toLower_eq_iff (by decide)
  rw [isBlank_toLower, Bool.eq_iff_iff]
  simp [hcomma]

/-- The opcode that the mnemonic of a line names. -/
def opcode? (code : Text) : Option Opcode :=
  (tokens code).head?.bind Opcode.ofMnemonic?

theorem opcode?_foldCase (code : Text) : opcode? (foldCase code) = opcode? code := by
  unfold opcode?
  rw [tokens_foldCase]
  cases tokens code with
  | nil => rfl
  | cons mnemonic args => exact Opcode.ofMnemonic?_foldCase mnemonic

theorem encodeOperands_foldCase (hop : op ≠ .ldstr) :
    encodeOperands c i u number op (args.map foldCase) = .ok ops ↔
      encodeOperands c i u number' op args = .ok ops := by
  have hresolve (kind : SymbolKind) (name : Text) :
      (resolve c i kind (foldCase name)).map ([·]) = .ok ops ↔
        (resolve c i kind name).map ([·]) = .ok ops := by
    simp only [resolve, Collection.resolve?_foldCase]
    cases c.resolve? i kind name with
    | none => simp [Except.map]
    | some symbol => rfl
  cases hshape : op.shape with
  | none =>
    cases args with
    | nil => simp [encodeOperands, hshape]
    | cons a args => simp [encodeOperands, hshape]
  | label | function =>
    match args with
    | [] | _ :: _ :: _ => simp [encodeOperands, hshape]
    | [name] =>
      simp only [encodeOperands, hshape, List.map_cons, List.map_nil]
      exact hresolve _ name
  | stringLoad => exact absurd (Opcode.shape_eq_stringLoad_iff.1 hshape) hop
  | pair =>
    match args with
    | [] | [_] | _ :: _ :: _ :: _ => simp [encodeOperands, hshape]
    | [dest, src] =>
      simp only [encodeOperands, hshape, List.map_cons, List.map_nil]
      rw [encodePair_eq_ok_iff (p := {}) hshape, encodePair_eq_ok_iff (p := {}) hshape]
      simp only [Operand.read_foldCase]

theorem encodeLine_foldCase (hload : opcode? code ≠ some .ldstr) :
    encodeLine c i u number (foldCase code) = .ok instr ↔
      encodeLine c i u number' code = .ok instr := by
  simp only [encodeLine_eq_ok_iff, tokens_foldCase]
  cases htokens : tokens code with
  | nil => simp
  | cons mnemonic args =>
    have hload : Opcode.ofMnemonic? mnemonic ≠ some .ldstr := by
      simpa [opcode?, htokens] using hload
    have hoperands (hop : Opcode.ofMnemonic? mnemonic = some instr.opcode) :
        encodeOperands c i u number instr.opcode (args.map foldCase) = .ok instr.operands ↔
          encodeOperands c i u number' instr.opcode args = .ok instr.operands := by
      refine encodeOperands_foldCase ?_
      rintro heq
      exact hload (hop.trans (congrArg some heq))
    constructor
    · rintro ⟨_, _, heq, hop, hops⟩
      obtain ⟨rfl, rfl⟩ := List.cons.inj heq
      rw [Opcode.ofMnemonic?_foldCase] at hop
      exact ⟨mnemonic, args, rfl, hop, (hoperands hop).1 hops⟩
    · rintro ⟨_, _, heq, hop, hops⟩
      obtain ⟨rfl, rfl⟩ := List.cons.inj heq
      refine ⟨_, _, rfl, ?_, (hoperands hop).2 hops⟩
      rwa [Opcode.ofMnemonic?_foldCase]

/-- Two lines that differ in the case of their letters only are encoded alike in every unit of every
collection, on whatever lines they stand, unless they load a string. -/
theorem encodeLine_eq_ok_iff_of_foldCase (hcase : foldCase code = foldCase code')
    (hload : opcode? code ≠ some .ldstr) (c : Collection) (i : Nat) (u : CompilationUnit)
    (number number' : Nat) (instr : Instruction) :
    encodeLine c i u number code = .ok instr ↔ encodeLine c i u number' code' = .ok instr := by
  have hload' : opcode? code' ≠ some .ldstr := by
    rwa [← opcode?_foldCase, ← hcase, opcode?_foldCase]
  calc encodeLine c i u number code = .ok instr
      ↔ encodeLine c i u number (foldCase code) = .ok instr := (encodeLine_foldCase hload).symm
    _ ↔ encodeLine c i u number (foldCase code') = .ok instr := by rw [hcase]
    _ ↔ encodeLine c i u number' code' = .ok instr := encodeLine_foldCase hload'

/-- A jump to a label that is declared as `Loop`. -/
theorem encodeLine_eq_ok_iff_of_foldCase_jump :
    let u := { CompilationUnit.empty "main.s".toList {} with
      labels := { base := 0, symbols := [⟨"Loop".toList, 7⟩], index := [("loop".toList, 0)] } }
    encodeLine (.ofUnits [u]) 0 u 1 "jmp loop".toList = .ok ⟨.jmp, [.target 7]⟩ ∧
      encodeLine (.ofUnits [u]) 0 u 2 "JMP LooP".toList = .ok ⟨.jmp, [.target 7]⟩ := by
  intro u
  have hcase : foldCase "jmp loop".toList = foldCase "JMP LooP".toList := by decide
  have hload : opcode? "jmp loop".toList ≠ some .ldstr := by decide
  have hlower : encodeLine (.ofUnits [u]) 0 u 1 "jmp loop".toList = .ok ⟨.jmp, [.target 7]⟩ := by
    decide
  exact ⟨hlower, (encodeLine_eq_ok_iff_of_foldCase hcase hload _ 0 u 1 2 _).1 hlower⟩

end Encoding

end RegisterMachine
