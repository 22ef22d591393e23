import RegisterMachine.Proofs.Assembly.WellFormed
import RegisterMachine.Proofs.Machine.Faults
import RegisterMachine.Proofs.Machine.Run

/-!
# Soundness of compilation

Compiled programs never fail because of the form of an instruction. Compilation leaves only
well-formed instructions (`wellFormed_of_compile`), a well-formed instruction fails only on values
(`Machine.not_isIllFormed_of_step_failed`), and no step changes the program.
-/

namespace RegisterMachine.Machine

variable {r : Registry} {m m' : Machine} {n : Nat} {e : RuntimeError}

/-- The machine may be in any state, whatever happened to it before: only its program counts. -/
theorem not_isIllFormed_of_advance (hr : r.IsConfined)
    (hw : ∀ i ∈ m.program.instructions, i.WellFormed m.program)
    (h : advance r n m = (some (.error e), m')) : ¬ e.fault.IsIllFormed := by
  obtain ⟨k, -, a, ha, hend⟩ := ends_of_advance h
  have hprogram : m.program = a.program := by
    have hsame := (sameResources_advance hr k m).program
    rw [ha] at hsame
    exact hsame.symm
  cases hend with
  | failed hrun hs =>
    obtain ⟨i, hi⟩ := isRunning_iff.1 hrun
    refine not_isIllFormed_of_step_failed hi ?_ hs
    rw [← hprogram] at hi ⊢
    exact hw i (Array.mem_of_getElem? hi)

theorem eq_output_of_close {result : Except RuntimeError Ending} (h : m.close result = .error e) :
    result = .error e ∨ ∃ message, e.fault = .output message := by
  rcases bind_eq_error_iff.1 h with h | ⟨ending, -, h⟩
  · exact .inl h
  · split at h
    · cases h
    · cases h
      exact .inr ⟨_, rfl⟩

/-- No run of a compiled program, under any configuration and with any input, fails with a malformed
operand, a register that does not exist or a jump target outside of the program. -/
theorem not_isIllFormed_of_compile {files : List SourceFile} {p : Program}
    (hp : compile files = .ok p) {config : Config} {console : Console}
    (h : (run .standard n (start config p console)).1 = some (.error e)) :
    ¬ e.fault.IsIllFormed := by
  have hw := wellFormed_of_compile hp
  cases ha : advance .standard n (start config p console) with
  | mk result m' =>
    rw [run, ha] at h
    obtain ⟨result, rfl, hclose⟩ := Option.map_eq_some_iff.1 h
    rcases eq_output_of_close hclose with rfl | ⟨message, hmessage⟩
    · exact not_isIllFormed_of_advance Registry.isConfined_standard hw ha
    · rw [hmessage]
      exact not_false

/-- A program that jumps to a division by zero. -/
theorem not_isIllFormed_of_compile_div :
    ∃ p e, compile [{ path := "a.asm".toList, text := "jmp l\nl:\ndiv R0, 0".toList }] = .ok p ∧
      (run .standard 2 (start {} p {})).1 = some (.error e) ∧ e.fault = .divisionByZero ∧
      ¬ e.fault.IsIllFormed := by
  let files : List SourceFile := [{ path := "a.asm".toList, text := "jmp l\nl:\ndiv R0, 0".toList }]
  let line : SourceLocation := ⟨"a.asm".toList, 3, "div R0, 0".toList⟩
  let p : Program :=
    { instructions := #[⟨.jmp, [.target 1]⟩, ⟨.div, [.register 0, .immediate 0]⟩]
      labels := #[⟨"l".toList, 1⟩]
      locations := #[⟨"a.asm".toList, 1, "jmp l".toList⟩, line] }
  let e : RuntimeError :=
    { fault := .divisionByZero, place := some (.div, 1), context := [line.describe] }
  have hp : compile files = .ok p := by decide +kernel
  have hrun : (run .standard 2 (start {} p {})).1 = some (.error e) := by decide +kernel
  exact ⟨p, e, hp, hrun, rfl, not_isIllFormed_of_compile hp hrun⟩

/-- A program that was not compiled may well fail so. -/
example :
    let p : Program := { instructions := #[⟨.mov, []⟩] }
    (run .standard 1 (start {} p {})).1 = some (.error
      { fault := .malformedOperand "missing operand 2", place := some (.mov, 0)
        context := [p.describe 0] }) := by
  decide +kernel

end RegisterMachine.Machine
