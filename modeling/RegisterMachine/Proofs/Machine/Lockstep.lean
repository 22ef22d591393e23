import Mathlib.Data.Option.Basic
import RegisterMachine.Proofs.Machine.Run
import RegisterMachine.Proofs.Service.Setting

/-!
# Two runs in lockstep

A machine and the same machine in a setting below which its own is take the same steps
(`Machine.step_transfer`), up to a fault for want of room in the first. So more memory and more room
for calls change nothing in a run that has enough of both (`Machine.advance_of_more_room`), and the
symbols and source locations of a program never do more than word the errors
(`Machine.run_of_same_code`).
-/

namespace RegisterMachine

/-- What an error says, up to the wording of its context. -/
def RuntimeError.outline (e : RuntimeError) : Fault × Option (Opcode × Nat) × Nat :=
  (e.fault, e.place, e.context.length)

/-- Two results of one computation in the programs `p` and `q`: errors may differ in the wording of
their context, but not if the programs are equal. -/
inductive Agrees {α : Type} (p q : Program) :
    Except RuntimeError α → Except RuntimeError α → Prop
  | ok (a : α) : Agrees p q (.ok a) (.ok a)
  | error {e e' : RuntimeError} (houtline : e'.outline = e.outline) (heq : q = p → e' = e) :
    Agrees p q (.error e) (.error e')

section Agrees

variable {α : Type} {p q : Program} {x y : Except RuntimeError α}

theorem Agrees.mapError_outline (h : Agrees p q x y) :
    y.mapError RuntimeError.outline = x.mapError RuntimeError.outline := by
  cases h with
  | ok a => rfl
  | error houtline _ => exact congrArg Except.error houtline

theorem Agrees.eq (h : Agrees p q x y) (hpq : q = p) : y = x := by
  cases h with
  | ok a => rfl
  | error _ heq => exact congrArg Except.error (heq hpq)

end Agrees

namespace Machine

variable {r : Registry} {m m' : Machine} {t : Setting} {i : Instruction}

theorem outline_located_transfer (fault : Fault) :
    ((m.transfer t).located i fault).outline = (m.located i fault).outline := by
  simp [RuntimeError.outline, located, transfer, CallStack.withCapacity, CallStack.callers]

theorem located_transfer (fault : Fault) (h : t.program = m.program) :
    (m.transfer t).located i fault = m.located i fault := by
  simp [located, transfer, CallStack.withCapacity, CallStack.callers, h]

theorem SameResources.setting (h : m.SameResources m') : m'.setting = m.setting := by
  rw [Machine.setting, Machine.setting, h.program, h.size_memory, h.capacity]

theorem follows_execute (hr : r.IsTransferable) (h : m.setting.Below t) :
    Follows t (m.setting.Excuses t) (execute r i m) (execute r i (m.transfer t)) := by
  by_cases hop : i.opcode = .syscall
  · simp only [execute, hop, callService, Action.get_bind]
    refine (hr.call (m.arg 0) h).bind fun outcome m' => ?_
    cases outcome <;> exact .same _ _
  · rw [execute_of_ne_syscall hop]
    exact follows_perform h

/-- In the setting `t` a step goes as it goes here, unless it fails here for want of room. -/
theorem step_transfer (hc : r.IsConfined) (hr : r.IsTransferable) (h : m.setting.Below t)
    {result : Except RuntimeError (Option Int32)} (hs : m.step r = (result, m')) :
    (∃ result', (m.transfer t).step r = (result', m'.transfer t) ∧
      Agrees m.program t.program result result') ∨
      ∃ e, result = .error e ∧ m.setting.Excuses t e.fault := by
  have hinstr : (m.transfer t).program.instructions[(m.transfer t).pc]? =
      m.program.instructions[m.pc]? := congrArg (·[m.pc]?) h.instructions
  have hsize : (m.transfer t).program.size = m.program.size := congrArg Array.size h.instructions
  unfold step at hs ⊢
  rw [hinstr]
  cases hi : m.program.instructions[m.pc]? with
  | none =>
    rw [hi] at hs
    cases hs
    refine .inl ⟨_, rfl, ?_⟩
    rw [hsize]
    exact .error rfl fun _ => rfl
  | some i =>
    have hnote : (m.transfer t).note (fun _ => .executing (m.transfer t).pc i) =
        (m.note fun _ => .executing m.pc i).transfer t := rfl
    have hexecute := follows_execute (m := m.note fun _ => .executing m.pc i) (i := i) hr h
    rw [hi] at hs
    simp only [hnote] at hs ⊢
    generalize hx : execute r i (m.note fun _ => .executing m.pc i) = x at hs hexecute
    generalize execute r i ((m.note fun _ => .executing m.pc i).transfer t) = y at hexecute ⊢
    cases hexecute with
    | same result₁ m₁ =>
      cases result₁ with
      | ok flow => cases flow <;> cases hs <;> exact .inl ⟨_, rfl, .ok _⟩
      | error fault =>
        have hprogram : m₁.program = m.program :=
          (congrArg Machine.program (eq_of_execute_failed hc hx).1).trans rfl
        cases hs
        refine .inl ⟨_, rfl, .error (outline_located_transfer fault) fun ht => ?_⟩
        exact located_transfer fault (ht.trans hprogram.symm)
    | excused he y =>
      cases hs
      exact .inr ⟨_, rfl, he⟩

theorem setting_of_step (hc : r.IsConfined) {result : Except RuntimeError (Option Int32)}
    (hs : m.step r = (result, m')) : m'.setting = m.setting := by
  cases hi : m.program.instructions[m.pc]? with
  | none =>
    simp only [step, hi] at hs
    cases hs
    rfl
  | some i => exact (steps_of_step hc hi hs).sameResources.setting

theorem isRunning_transfer (h : m.setting.Below t) : (m.transfer t).isRunning = m.isRunning := by
  have hsize : t.program.size = m.program.size := congrArg Array.size h.instructions
  simp only [isRunning, transfer, hsize]

/-- In the setting `t` a run ends as it ends here, unless it fails here for want of room. -/
theorem ends_transfer (hc : r.IsConfined) (hr : r.IsTransferable) (h : m.setting.Below t)
    {result : Except RuntimeError Ending} (hend : m.Ends r result m') :
    (∃ result', (m.transfer t).Ends r result' (m'.transfer t) ∧
      Agrees m.program t.program result result') ∨
      ∃ e, result = .error e ∧ m.setting.Excuses t e.fault := by
  have hrunning := isRunning_transfer h
  cases hend with
  | finished hrun => exact .inl ⟨_, .finished (hrunning.trans hrun), .ok _⟩
  | exited hrun hs =>
    obtain ⟨_, hs', hagrees⟩ | ⟨_, hfailed, -⟩ := step_transfer hc hr h hs
    · cases hagrees
      exact .inl ⟨_, .exited (hrunning.trans hrun) hs', .ok _⟩
    · cases hfailed
  | failed hrun hs =>
    obtain ⟨_, hs', hagrees⟩ | ⟨_, hfailed, he⟩ := step_transfer hc hr h hs
    · cases hagrees with
      | error houtline heq =>
        exact .inl ⟨_, .failed (hrunning.trans hrun) hs', .error houtline heq⟩
    · cases hfailed
      exact .inr ⟨_, rfl, he⟩

/-- In the setting `t` a run goes as it goes here, unless it fails here for want of room. -/
theorem advance_transfer (hc : r.IsConfined) (hr : r.IsTransferable) (h : m.setting.Below t)
    {n : Nat} {result : Option (Except RuntimeError Ending)} (hs : advance r n m = (result, m')) :
    (∃ result', advance r n (m.transfer t) = (result', m'.transfer t) ∧
      Option.Rel (Agrees m.program t.program) result result') ∨
      ∃ e, result = some (.error e) ∧ m.setting.Excuses t e.fault := by
  induction n generalizing m with
  | zero =>
    cases hs
    exact .inl ⟨none, rfl, .none⟩
  | succ n ih =>
    obtain ⟨ending, rfl, hend⟩ | ⟨a, hrun, hstep, hs⟩ := ends_or_step_of_advance hs
    · obtain ⟨ending', hend', hagrees⟩ | ⟨e, rfl, he⟩ := ends_transfer hc hr h hend
      · exact .inl ⟨some ending', advance_of_ends hend', .some hagrees⟩
      · exact .inr ⟨e, rfl, he⟩
    · obtain ⟨_, hstep', hagrees⟩ | ⟨_, hfailed, -⟩ := step_transfer hc hr h hstep
      · cases hagrees
        rw [advance_of_step ((isRunning_transfer h).trans hrun) hstep']
        have hsetting := setting_of_step hc hstep
        have hprogram : a.program = m.program := congrArg Setting.program hsetting
        rw [← hsetting, ← hprogram]
        exact ih (hsetting ▸ h) hs
      · cases hfailed

theorem setting_of_advance (hc : r.IsConfined) {n : Nat}
    {result : Option (Except RuntimeError Ending)} (hs : advance r n m = (result, m')) :
    m'.setting = m.setting := by
  have h := (sameResources_advance hc n m).setting
  rwa [hs] at h

/-- A machine at the start of `p`, in a setting with the program `q`. -/
theorem start_transfer {small large : Config} (hmemory : small.memorySize ≤ large.memorySize)
    (hdiscipline : small.discipline = large.discipline) (p q : Program) (console : Console) :
    (start small p console).transfer ⟨q, large.memorySize, large.callDepth⟩ =
      start large q console := by
  simp [start, transfer, CallStack.withCapacity, Buffer.resize_zeros hmemory, hdiscipline]

/-- The machine `b` is the machine `a` but for its room: it may have more memory, and all of it
that `a` has not is zero. -/
structure SameButRoom (a b : Machine) : Prop where
  program : b.program = a.program
  registers : b.registers = a.registers
  syscallRegisters : b.syscallRegisters = a.syscallRegisters
  pc : b.pc = a.pc
  callers : b.calls.callers = a.calls.callers
  heap : b.heap = a.heap
  scopes : b.scopes = a.scopes
  frames : b.frames = a.frames
  console : b.console = a.console
  memory : ∀ i < a.memory.size, b.memory.get i = a.memory.get i
  zeros : ∀ i, a.memory.size ≤ i → b.memory.get i = 0

theorem sameButRoom_transfer (hprogram : t.program = m.program)
    (hsize : m.memory.size ≤ t.memorySize) : m.SameButRoom (m.transfer t) where
  program := hprogram
  registers := rfl
  syscallRegisters := rfl
  pc := rfl
  callers := rfl
  heap := rfl
  scopes := rfl
  frames := rfl
  console := rfl
  memory := fun i _ => Buffer.get_resize hsize i
  zeros := fun i hi => (Buffer.get_resize hsize i).trans (m.memory.get_of_size_le hi)

/-- A run of `n` steps goes through the same states on a machine with more memory and more room for
calls, and so does the next step, unless it fails for want of room. -/
theorem advance_of_more_room {small large : Config} {p : Program} {console : Console} {n : Nat}
    {a : Machine} (hmemory : small.memorySize ≤ large.memorySize)
    (hdepth : small.callDepth ≤ large.callDepth)
    (hdiscipline : small.discipline = large.discipline)
    (ha : advance .standard n (start small p console) = (none, a)) :
    ∃ b, advance .standard n (start large p console) = (none, b) ∧ a.SameButRoom b ∧
      a.memory.size = small.memorySize ∧ b.memory.size = large.memorySize ∧
      ∀ result a', a.step .standard = (result, a') →
        (∀ e, result = .error e → ¬ e.fault.IsShortage) →
        ∃ b', b.step .standard = (result, b') ∧ a'.SameButRoom b' := by
  let t : Setting := ⟨p, large.memorySize, large.callDepth⟩
  have hconfined := Registry.isConfined_standard
  have htransferable := Registry.isTransferable_standard
  have hbelow : (start small p console).setting.Below t := ⟨rfl, rfl, hmemory, hdepth⟩
  have hsetting := setting_of_advance hconfined ha
  have hsame {m : Machine} (hm : m.setting = (start small p console).setting) :
      m.SameButRoom (m.transfer t) := by
    apply sameButRoom_transfer
    · exact (congrArg Setting.program hm).symm
    · exact Nat.le_trans (Nat.le_of_eq (congrArg Setting.memorySize hm)) hmemory
  obtain ⟨result, hb, hagrees⟩ | ⟨_, hnone, -⟩ :=
    advance_transfer hconfined htransferable hbelow ha
  · cases hagrees
    rw [start_transfer hmemory hdiscipline] at hb
    refine ⟨a.transfer t, hb, hsame hsetting, congrArg Setting.memorySize hsetting, rfl, ?_⟩
    intro result a' hs hshortage
    obtain ⟨result', hb', hagrees⟩ | ⟨e, he, hexcused⟩ :=
      step_transfer hconfined htransferable (hsetting ▸ hbelow) hs
    · obtain rfl := hagrees.eq (congrArg Setting.program hsetting).symm
      exact ⟨a'.transfer t, hb', hsame ((setting_of_step hconfined hs).trans hsetting)⟩
    · exact absurd hexcused.2 (hshortage e he)
  · cases hnone

/-- A text that fills the memory is printed up to its end, and so it is where zeros follow. -/
theorem advance_of_more_room_print :
    let p : Program :=
      { instructions := #[⟨.mov, [.register 1, .immediate 0x44434241]⟩,
          ⟨.store, [.register 1, .register 0]⟩, ⟨.mov, [.syscallRegister 0, .immediate 2]⟩,
          ⟨.syscall, []⟩, ⟨.div, [.register 1, .immediate 0]⟩] }
    let small : Config := { memorySize := 4, callDepth := 0 }
    let large : Config := { memorySize := 8, callDepth := 1 }
    ∃ a b e a' b', advance .standard 4 (start small p {}) = (none, a) ∧
      advance .standard 4 (start large p {}) = (none, b) ∧ a.SameButRoom b ∧
      a.console.output = "ABCD\n".toList ∧ a.step .standard = (.error e, a') ∧
      e.fault = .divisionByZero ∧ b.step .standard = (.error e, b') ∧ a'.SameButRoom b' := by
  intro p small large
  have hnone : (advance .standard 4 (start small p {})).1 = none := by decide +kernel
  have ha := Prod.fst_eq_iff.1 hnone
  let a := (advance .standard 4 (start small p {})).2
  let e : RuntimeError :=
    { fault := .divisionByZero, place := some (.div, 4), context := [p.describe 4] }
  have herror : (a.step .standard).1 = .error e := by decide +kernel
  have hs := Prod.fst_eq_iff.1 herror
  have hmemory : small.memorySize ≤ large.memorySize := by decide
  have hdepth : small.callDepth ≤ large.callDepth := by decide
  obtain ⟨b, hb, hsame, -, -, hstep⟩ := advance_of_more_room hmemory hdepth rfl ha
  obtain ⟨b', hb', hsame'⟩ := hstep _ _ hs fun e' he' => by
    cases he'
    exact id
  exact ⟨a, b, e, _, b', ha, hb, hsame, by decide +kernel, hs, rfl, hb', hsame'⟩

theorem transfer_of_same_room (hsize : t.memorySize = m.memory.size)
    (hdepth : t.callDepth = m.calls.capacity) : m.transfer t = { m with program := t.program } := by
  rw [transfer, hsize, hdepth, Buffer.resize_size]
  rfl

theorem agrees_close {p q : Program} {x y : Except RuntimeError Ending} (h : Agrees p q x y)
    (hconsole : m'.console = m.console) : Agrees p q (m.close x) (m'.close y) := by
  cases h with
  | ok ending =>
    rw [Machine.close, Machine.close, hconsole]
    cases m.console.flush with
    | ok _ => exact .ok ending
    | error message => exact .error rfl fun _ => rfl
  | error houtline heq => exact .error houtline heq

/-- Two programs with the same instructions and strings run alike on any machine: after every number
of steps all but the program is the same, and the results differ at most in the wording of the
context of an error. -/
theorem run_of_same_code {p q : Program} (hinstructions : q.instructions = p.instructions)
    (hstrings : q.strings = p.strings) {config : Config} {console : Console} {n : Nat}
    {result : Option (Except RuntimeError Ending)} {a : Machine}
    (ha : run .standard n (start config p console) = (result, a)) :
    ∃ result', run .standard n (start config q console) = (result', { a with program := q }) ∧
      result'.map (·.mapError RuntimeError.outline) =
        result.map (·.mapError RuntimeError.outline) := by
  let t : Setting := ⟨q, config.memorySize, config.callDepth⟩
  have hconfined := Registry.isConfined_standard
  have hbelow : (start config p console).setting.Below t :=
    ⟨hinstructions, hstrings, Nat.le_refl _, Nat.le_refl _⟩
  cases hadvance : advance .standard n (start config p console) with
  | mk x m =>
    rw [run, hadvance] at ha
    cases ha
    have hsetting := setting_of_advance hconfined hadvance
    have htransfer : a.transfer t = { a with program := q } :=
      transfer_of_same_room (congrArg Setting.memorySize hsetting).symm
        (congrArg Setting.callDepth hsetting).symm
    obtain ⟨x', hx', hagrees⟩ | ⟨_, -, htighter, -⟩ :=
      advance_transfer hconfined Registry.isTransferable_standard hbelow hadvance
    · rw [start_transfer (Nat.le_refl _) rfl, htransfer] at hx'
      refine ⟨_, by rw [run, hx'], ?_⟩
      cases hagrees with
      | none => rfl
      | some hagrees => exact congrArg some (agrees_close hagrees rfl).mapError_outline
    · exact absurd htighter (not_or.2 ⟨Nat.lt_irrefl _, Nat.lt_irrefl _⟩)

/-- A program with some of its source locations, and its code alone: the error in the function that
is called has the same two frames of context, in other words. -/
theorem run_of_same_code_call :
    let p : Program :=
      { instructions := #[⟨.call, [.target 2]⟩, ⟨.ret, []⟩, ⟨.div, [.register 0, .immediate 0]⟩]
        functions := #[⟨"f".toList, 2⟩]
        locations := #[⟨"a.asm".toList, 1, "call f".toList⟩] }
    let q : Program := { instructions := p.instructions }
    ∃ e e' a, run .standard 2 (start {} p {}) = (some (.error e), a) ∧
      run .standard 2 (start {} q {}) = (some (.error e'), { a with program := q }) ∧
      e.outline = (.divisionByZero, some (.div, 2), 2) ∧ e'.outline = e.outline ∧ e' ≠ e := by
  intro p q
  let error (p : Program) : RuntimeError :=
    { fault := .divisionByZero, place := some (.div, 2)
      context := [p.describe 2, "called from ".toList ++ p.describe 0] }
  have hp : (run .standard 2 (start {} p {})).1 = some (.error (error p)) := by decide +kernel
  have hq : (run .standard 2 (start {} q {})).1 = some (.error (error q)) := by decide +kernel
  obtain ⟨result, ha, houtline⟩ := run_of_same_code (p := p) (q := q) rfl rfl (Prod.fst_eq_iff.1 hp)
  obtain rfl : result = some (.error (error q)) := by rw [← hq, ha]
  refine ⟨error p, error q, _, Prod.fst_eq_iff.1 hp, ha, rfl, ?_, by decide +kernel⟩
  exact Except.error.inj (Option.some.inj houtline)

end Machine

end RegisterMachine
