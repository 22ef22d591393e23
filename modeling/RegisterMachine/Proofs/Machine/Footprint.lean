import RegisterMachine.Proofs.Machine.Arithmetic
import RegisterMachine.Proofs.Machine.Calls
import RegisterMachine.Proofs.Machine.Memory
import RegisterMachine.Proofs.Service.Memory

/-!
# Footprints

A machine is made of cells: registers, bytes, the pending calls, the heap, the variables and what it
exchanges with its console. `Machine.Owns` lists the cells that an instruction may change, which for
a syscall are those of the service that it calls. Every other cell is after the step what it was
before (`Machine.staysWithin_of_step`), and what no instruction on the way owns, a run keeps
(`Machine.keeps_of_advance`).
-/

namespace RegisterMachine

/-- A part of a machine that can change while the others stay. -/
inductive Cell where
  | register (n : Fin registerCount)
  | syscallRegister (n : Fin syscallRegisterCount)
  /-- A byte of memory. -/
  | byte (k : Nat)
  /-- The pending calls. -/
  | calls
  | heap
  /-- The scopes that have names. -/
  | scopes
  /-- The stack of frames. -/
  | frames
  /-- The input, the output and the clock. -/
  | console
  deriving DecidableEq, Repr

/-- The register that an operand stands for. -/
def Operand.Names : Operand → Cell → Prop
  | .register n, .register k => n.toNat = k
  | .syscallRegister n, .syscallRegister k => n.toNat = k
  | _, _ => False

/-- An opcode whose result goes to its first operand. -/
def Opcode.WritesOperand (op : Opcode) : Prop :=
  op ∈ [.mov, .load, .ldstr] ∨ op.IsArithmetic

namespace Machine

/-- The cell is in `m'` as it is in `m`. The log of a console is no part of the cell, as every step
may add to it. -/
def Keeps (m m' : Machine) : Cell → Prop
  | .register n => m'.registers[n] = m.registers[n]
  | .syscallRegister n => m'.arg n = m.arg n
  | .byte k => m'.memory.get k = m.memory.get k
  | .calls => m'.calls = m.calls
  | .heap => m'.heap = m.heap
  | .scopes => m'.scopes = m.scopes
  | .frames => m'.frames = m.frames
  | .console => m'.console = { m.console with log := m'.console.log }

/-- The cells that the service with the given number may change. -/
inductive ServiceOwns (m : Machine) : Int32 → Cell → Prop
  | result {id : Int32} (h : id ∈ [7, 10, 12, 14, 15, 23, 33]) :
    ServiceOwns m id (.syscallRegister 0)
  | input : ServiceOwns m 5 (.syscallRegister 1)
  /-- A byte of the target of a copy. -/
  | copied {k : Nat} (hrange : m.HoldsRange (m.arg 2) (m.arg 3)) (hle : (m.arg 2).toInt ≤ k)
    (hlt : k < (m.arg 2).toInt + (m.arg 3).toInt) : ServiceOwns m 13 (.byte k)
  /-- A byte of the place where a literal and the zero behind it are stored. -/
  | stored {text : Text} {k : Nat} (hliteral : m.program.literal? (m.arg 1) = some text)
    (hroom : m.HoldsText (m.arg 2) text) (hle : (m.arg 2).toInt ≤ k)
    (hlt : k < (m.arg 2).toInt + (Utf8.encode text).length + 1) : ServiceOwns m 14 (.byte k)
  | heap {id : Int32} (h : id ∈ [7, 8, 9, 11]) : ServiceOwns m id .heap
  | scopes {id : Int32} (h : id ∈ [20, 21, 22, 24]) : ServiceOwns m id .scopes
  | frames {id : Int32} (h : id ∈ [30, 31, 32, 34]) : ServiceOwns m id .frames
  | console {id : Int32} (h : id ∈ [1, 2, 4, 5, 6, 15]) : ServiceOwns m id .console

/-- The cells that an instruction may change. -/
inductive Owns (m : Machine) (i : Instruction) : Cell → Prop
  | destination {o : Operand} {c : Cell} (hop : i.opcode.WritesOperand) (ho : i.operand 0 = .ok o)
    (hc : o.Names c) : Owns m i c
  | flag (hop : i.opcode = .cmp) : Owns m i (.register flagRegister)
  /-- A byte of the word at the address in the second operand. -/
  | stored {o : Operand} {a : Int32} {k : Nat} (hop : i.opcode = .store) (ho : i.operand 1 = .ok o)
    (ha : m.read o = .ok a) (hle : a.toInt ≤ k) (hlt : k < a.toInt + 4) : Owns m i (.byte k)
  | calls (hop : i.opcode ∈ [.call, .ret]) : Owns m i .calls
  | service {c : Cell} (hop : i.opcode = .syscall) (h : m.ServiceOwns (m.arg 0) c) : Owns m i c

/-- `m'` has all cells of `m` but those that are owned. -/
def KeepsOutside (owned : Cell → Prop) (m m' : Machine) : Prop :=
  ∀ c, ¬ owned c → m.Keeps m' c

variable {m m' m'' : Machine} {i : Instruction} {c : Cell}

theorem Keeps.refl (m : Machine) (c : Cell) : m.Keeps m c := by
  cases c <;> rfl

theorem Keeps.trans (h : m.Keeps m' c) (h' : m'.Keeps m'' c) : m.Keeps m'' c := by
  cases c with
  | console =>
    simp only [Keeps] at h h' ⊢
    rw [h', h]
  | _ => exact Eq.trans h' h

namespace KeepsOutside

variable {owned : Cell → Prop}

theorem refl (m : Machine) : KeepsOutside owned m m :=
  fun c _ => .refl m c

theorem trans (h : KeepsOutside owned m m') (h' : KeepsOutside owned m' m'') :
    KeepsOutside owned m m'' :=
  fun c hc => (h c hc).trans (h' c hc)

theorem mono {owned' : Cell → Prop} (h : KeepsOutside owned m m')
    (howned : ∀ c, owned c → owned' c) : KeepsOutside owned' m m' :=
  fun c hc => h c (mt (howned c) hc)

theorem setPc (m : Machine) (pc : Nat) : KeepsOutside owned m { m with pc } :=
  fun c _ => .refl m c

theorem setHeap (h : owned .heap) (heap : Heap) : KeepsOutside owned m { m with heap } := by
  intro c hc
  cases c with
  | heap => exact absurd h hc
  | _ => rfl

theorem setScopes (h : owned .scopes) (scopes : NamedScopes) :
    KeepsOutside owned m { m with scopes } := by
  intro c hc
  cases c with
  | scopes => exact absurd h hc
  | _ => rfl

theorem setFrames (h : owned .frames) (frames : StackScopes) :
    KeepsOutside owned m { m with frames } := by
  intro c hc
  cases c with
  | frames => exact absurd h hc
  | _ => rfl

theorem setCalls (h : owned .calls) (calls : CallStack) :
    KeepsOutside owned m { m with calls } := by
  intro c hc
  cases c with
  | calls => exact absurd h hc
  | _ => rfl

theorem setConsole (h : owned .console) (console : Console) :
    KeepsOutside owned m { m with console } := by
  intro c hc
  cases c with
  | console => exact absurd h hc
  | _ => rfl

theorem setMemory {memory : Buffer UInt8}
    (h : ∀ k, ¬ owned (.byte k) → memory.get k = m.memory.get k) :
    KeepsOutside owned m { m with memory } := by
  intro c hc
  cases c with
  | byte k => exact h k hc
  | _ => rfl

theorem setRegister {n : Nat} (hn : n < registerCount) (h : owned (.register ⟨n, hn⟩))
    (value : Int32) :
    KeepsOutside owned m { m with registers := m.registers.set n value } := by
  intro c hc
  cases c with
  | register k =>
    have hne : n ≠ k.val := by
      rintro rfl
      exact hc h
    exact Vector.getElem_set_ne hn k.isLt hne
  | _ => rfl

theorem setArg {n : Fin syscallRegisterCount} (h : owned (.syscallRegister n)) (value : Int32) :
    KeepsOutside owned m (m.setArg n value) := by
  intro c hc
  cases c with
  | syscallRegister k =>
    have hne : n.val ≠ k.val := by
      intro heq
      exact hc (Fin.ext heq ▸ h)
    exact Vector.getElem_set_ne n.isLt k.isLt hne
  | _ => rfl

/-- Recording an event changes nothing but the log. -/
theorem note (m : Machine) (event : Unit → Event) : KeepsOutside owned m (m.note event) := by
  intro c _
  cases c with
  | console =>
    show m.console.note event = { m.console with log := (m.console.note event).log }
    unfold Console.note
    split <;> rfl
  | _ => rfl

end KeepsOutside

end Machine

namespace Service

open Machine (KeepsOutside)

variable {m : Machine} {owned : Cell → Prop}

theorem keepsOutside_println (h : owned .console) (text : Text) :
    KeepsOutside owned m (println m text).2 := by
  unfold println
  split
  · exact .setConsole h _
  · exact .refl m

theorem keepsOutside_withLiteral {n : Fin syscallRegisterCount} {next : Text → Reply}
    (h : ∀ text, m.program.literal? (m.arg n) = some text → KeepsOutside owned m (next text).2) :
    KeepsOutside owned m (withLiteral m n next).2 := by
  unfold withLiteral
  split
  · exact h _ (by assumption)
  · exact .refl m

theorem keepsOutside_withRange {address len : Int32} {next : Nat → Reply}
    (h : m.HoldsRange address len → KeepsOutside owned m (next address.toInt.toNat).2) :
    KeepsOutside owned m (withRange m address len next).2 := by
  by_cases hrange : m.HoldsRange address len
  · rw [withRange_of_holdsRange hrange]
    exact h hrange
  · rw [withRange_of_not_holdsRange hrange]
    exact .refl m

theorem keepsOutside_proceed {α : Type} {x : Action Machine ServiceError α}
    {next : α → Machine → Machine} (hx : KeepsOutside owned m (x m).2)
    (hnext : ∀ a m', KeepsOutside owned m' (next a m')) :
    KeepsOutside owned m (proceed m x next).2 := by
  unfold proceed
  generalize x m = r at hx
  split
  · exact hx.trans (hnext _ _)
  · exact hx

theorem keepsOutside_answer (h : owned (.syscallRegister 0)) (value : Except ServiceError Int32) :
    KeepsOutside owned m (answer m value).2 :=
  keepsOutside_proceed (.refl m) fun _ _ => .setArg h _

theorem keepsOutside_readInt (m : Machine) : KeepsOutside (m.ServiceOwns 5) m (readInt m).2 := by
  have hconsole : m.ServiceOwns 5 .console := .console (by decide)
  unfold readInt
  split
  · exact (KeepsOutside.setConsole hconsole _).trans (.setArg .input _)
  · exact .setConsole hconsole _

theorem keepsOutside_copyMemory (m : Machine) :
    KeepsOutside (m.ServiceOwns 13) m (copyMemory m).2 := by
  refine keepsOutside_withRange fun _ => keepsOutside_withRange fun hdst => ?_
  refine .setMemory fun k hk => ?_
  have ⟨hnonneg, hlen, hend⟩ := hdst
  rw [Buffer.get_copy (by omega), if_neg]
  rintro ⟨hle, hlt⟩
  exact hk (.copied hdst (by omega) (by omega))

theorem keepsOutside_storeLiteral (m : Machine) :
    KeepsOutside (m.ServiceOwns 14) m (storeLiteral m).2 := by
  refine keepsOutside_withLiteral fun text hliteral => ?_
  dsimp only
  split
  · exact .refl m
  rename_i hlt
  refine keepsOutside_withRange fun hrange => ?_
  have hroom : m.HoldsText (m.arg 2) text := Machine.holdsText_iff.2 ⟨by omega, hrange⟩
  obtain ⟨hnonneg, -, hend⟩ := hrange
  rw [Int32.toInt_ofNat_of_lt (by omega)] at hend
  have hlength : (Utf8.encode text ++ [0]).length = (Utf8.encode text).length + 1 :=
    List.length_append
  refine (KeepsOutside.setMemory fun k hk => ?_).trans (.setArg (.result (by decide)) _)
  rw [Buffer.get_write (by omega)]
  split
  · have hout : (Utf8.encode text ++ [0]).length ≤ k - (m.arg 2).toInt.toNat := by
      by_contra hin
      exact hk (.stored hliteral hroom (by omega) (by omega))
    rw [List.getElem?_eq_none hout, Option.getD_none]
  · rfl

theorem keepsOutside_corePlugin : ∀ s ∈ corePlugin.services, ∀ m : Machine,
    KeepsOutside (m.ServiceOwns s.id) m (s.handler m).2 := by
  simp only [corePlugin, List.forall_mem_cons, List.not_mem_nil, false_imp_iff, implies_true,
    and_true]
  refine ⟨?printInt, ?printBytes, ?exit, ?printLiteral, keepsOutside_readInt, ?printFloat,
    keepsOutside_copyMemory, keepsOutside_storeLiteral, ?time⟩ <;> intro m
  case printInt => exact keepsOutside_println (.console (by decide)) _
  case printBytes =>
    exact keepsOutside_withRange fun _ => keepsOutside_println (.console (by decide)) _
  case exit => exact .refl m
  case printLiteral =>
    exact keepsOutside_withLiteral fun _ _ => keepsOutside_println (.console (by decide)) _
  case printFloat => exact keepsOutside_println (.console (by decide)) _
  case time =>
    exact (KeepsOutside.setConsole (.console (by decide)) _).trans (.setArg (.result (by decide)) _)

theorem keepsOutside_memoryPlugin : ∀ s ∈ memoryPlugin.services, ∀ m : Machine,
    KeepsOutside (m.ServiceOwns s.id) m (s.handler m).2 := by
  simp only [memoryPlugin, List.forall_mem_cons, List.not_mem_nil, false_imp_iff, implies_true,
    and_true]
  refine ⟨?alloc, ?realloc, ?free, ?load, ?store, ?size⟩ <;> intro m
  case alloc =>
    refine keepsOutside_proceed (.setHeap (.heap (by decide)) _) fun _ _ => ?_
    exact .setArg (.result (by decide)) _
  case realloc | store =>
    exact keepsOutside_proceed (.setHeap (.heap (by decide)) _) fun _ m' => .refl m'
  case free => exact keepsOutside_proceed (.setHeap (.heap (by decide)) _) fun _ m' => .note m' _
  case load | size => exact keepsOutside_answer (.result (by decide)) _

theorem keepsOutside_variablesPlugin : ∀ s ∈ variablesPlugin.services, ∀ m : Machine,
    KeepsOutside (m.ServiceOwns s.id) m (s.handler m).2 := by
  simp only [variablesPlugin, List.forall_mem_cons, List.not_mem_nil, false_imp_iff, implies_true,
    and_true]
  refine ⟨?create, ?destroy, ?declare, ?get, ?set, ?push, ?pop, ?declareInFrame, ?getInFrame,
    ?setInFrame⟩ <;> intro m
  case push => exact (KeepsOutside.setFrames (.frames (by decide)) _).trans (.note _ _)
  case pop =>
    exact keepsOutside_proceed (.setFrames (.frames (by decide)) _) fun _ m' => .note m' _
  case create | destroy =>
    refine keepsOutside_withLiteral fun _ _ => ?_
    exact keepsOutside_proceed (.setScopes (.scopes (by decide)) _) fun _ m' => .refl m'
  case declare | set =>
    refine keepsOutside_withLiteral fun _ _ => keepsOutside_withLiteral fun _ _ => ?_
    exact keepsOutside_proceed (.setScopes (.scopes (by decide)) _) fun _ m' => .refl m'
  case get =>
    refine keepsOutside_withLiteral fun _ _ => keepsOutside_withLiteral fun _ _ => ?_
    exact keepsOutside_answer (.result (by decide)) _
  case declareInFrame | setInFrame =>
    refine keepsOutside_withLiteral fun _ _ => ?_
    exact keepsOutside_proceed (.setFrames (.frames (by decide)) _) fun _ m' => .refl m'
  case getInFrame =>
    exact keepsOutside_withLiteral fun _ _ => keepsOutside_answer (.result (by decide)) _

end Service

namespace Machine

variable {m m' : Machine} {i : Instruction} {c : Cell}

/-- Recording an event makes no difference to what a service may change. -/
theorem ServiceOwns.of_note {event : Unit → Event} {id : Int32}
    (h : (m.note event).ServiceOwns id c) : m.ServiceOwns id c := by
  cases h with
  | result h => exact .result h
  | input => exact .input
  | copied hrange hle hlt => exact .copied hrange hle hlt
  | stored hliteral hroom hle hlt => exact .stored hliteral hroom hle hlt
  | heap h => exact .heap h
  | scopes h => exact .scopes h
  | frames h => exact .frames h
  | console h => exact .console h

theorem keepsOutside_call (id : Int32) (m : Machine) :
    KeepsOutside (m.ServiceOwns id) m (Registry.standard.call id m).2 := by
  unfold Registry.call
  split
  · exact .refl m
  · rename_i e he
    have hid : e.service.id = id := by simpa using List.find?_some he
    let noted := m.note fun _ => .calling id e.plugin e.service.name
    have hservice : KeepsOutside (noted.ServiceOwns id) noted (e.service.handler noted).2 := by
      obtain ⟨p, hp, hmem⟩ := List.mem_flatMap.1 (List.mem_of_find?_eq_some he)
      obtain ⟨s, hs, rfl⟩ := List.mem_map.1 hmem
      rw [← hid]
      simp only [standardPlugins, List.mem_cons, List.not_mem_nil, or_false] at hp
      rcases hp with rfl | rfl | rfl
      · exact Service.keepsOutside_corePlugin s hs noted
      · exact Service.keepsOutside_memoryPlugin s hs noted
      · exact Service.keepsOutside_variablesPlugin s hs noted
    have hcall : KeepsOutside (m.ServiceOwns id) m (e.service.handler noted).2 :=
      (KeepsOutside.note m _).trans (hservice.mono fun c => ServiceOwns.of_note)
    split <;> rename_i heq <;> rw [heq] at hcall <;> exact hcall

theorem keepsOutside_write {o : Operand} {value : Int32} (h : write o value m = (.ok (), m')) :
    KeepsOutside o.Names m m' := by
  cases o with
  | register n =>
    simp only [write] at h
    split at h
    · rename_i hn
      cases h
      have hnamed : (Operand.register n).Names (.register ⟨n.toNat, hn⟩) := Eq.refl n.toNat
      exact .setRegister hn hnamed value
    · cases h
  | syscallRegister n =>
    simp only [write] at h
    split at h
    · rename_i hn
      cases h
      have hnamed : (Operand.syscallRegister n).Names (.syscallRegister ⟨n.toNat, hn⟩) :=
        Eq.refl n.toNat
      exact .setArg hnamed value
    · cases h
  | _ => cases h

/-- An instruction that ends with a write to its first operand. -/
theorem keepsOutside_destination {o : Operand} {value : Int32} (hop : i.opcode.WritesOperand)
    (ho : i.operand 0 = .ok o) (h : write o value m = (.ok (), m')) :
    KeepsOutside (m.Owns i) m m' :=
  (keepsOutside_write h).mono fun _ => .destination hop ho

theorem keepsOutside_move (hop : i.opcode.WritesOperand) (h : move i m = (.ok (), m')) :
    KeepsOutside (m.Owns i) m m' := by
  simp only [move, Action.get_bind, Action.lift_bind_eq_ok_iff] at h
  obtain ⟨src, -, value, -, dest, hdest, h⟩ := h
  exact keepsOutside_destination hop hdest h

theorem keepsOutside_load (hop : i.opcode.WritesOperand) (h : load i m = (.ok (), m')) :
    KeepsOutside (m.Owns i) m m' := by
  simp only [load, Action.get_bind, Action.lift_bind_eq_ok_iff] at h
  obtain ⟨src, -, address, -, value, -, dest, hdest, h⟩ := h
  exact keepsOutside_destination hop hdest h

theorem keepsOutside_combine (hop : i.opcode.WritesOperand) (h : combine i m = (.ok (), m')) :
    KeepsOutside (m.Owns i) m m' := by
  simp only [combine, Action.get_bind, Action.lift_bind_eq_ok_iff] at h
  obtain ⟨dest, hdest, a, -, src, -, b, -, value, -, h⟩ := h
  exact keepsOutside_destination hop hdest h

theorem keepsOutside_loadString (hop : i.opcode.WritesOperand)
    (h : loadString i m = (.ok (), m')) : KeepsOutside (m.Owns i) m m' := by
  obtain ⟨src, -, h⟩ := Action.lift_bind_eq_ok_iff.1 h
  cases src with
  | string index =>
    obtain ⟨dest, hdest, h⟩ := Action.lift_bind_eq_ok_iff.1 h
    exact keepsOutside_destination hop hdest h
  | _ => cases h

theorem keepsOutside_compare (hop : i.opcode = .cmp) (h : compare i m = (.ok (), m')) :
    KeepsOutside (m.Owns i) m m' := by
  simp only [compare, Action.get_bind, Action.lift_bind_eq_ok_iff] at h
  obtain ⟨left, -, a, -, right, -, b, -, h⟩ := h
  cases h
  exact .setRegister flagRegister.isLt (.flag hop) _

theorem keepsOutside_store (hop : i.opcode = .store) (h : store i m = (.ok (), m')) :
    KeepsOutside (m.Owns i) m m' := by
  simp only [store, Action.get_bind, Action.lift_bind_eq_ok_iff] at h
  obtain ⟨src, -, value, -, dest, hdest, address, haddress, h⟩ := h
  have hget (k : Nat) (hk : ¬ m.Owns i (.byte k)) : m'.memory.get k = m.memory.get k := by
    apply get_of_storeWord_of_outside h
    by_contra hin
    exact hk (.stored hop hdest haddress (by omega) (by omega))
  obtain ⟨-, rfl⟩ := storeWord_eq_ok_iff.1 h
  exact .setMemory hget

theorem keepsOutside_perform {flow : Flow} (hservice : i.opcode ≠ .syscall)
    (h : perform i m = (.ok flow, m')) : KeepsOutside (m.Owns i) m m' := by
  have next {x : Action Machine Fault Unit} (hx : x m = (.ok (), m') → KeepsOutside (m.Owns i) m m')
      (h : andNext x m = (.ok flow, m')) : KeepsOutside (m.Owns i) m m' :=
    hx (andNext_eq_ok_iff.1 h).1
  unfold perform at h
  cases hop : i.opcode <;> simp only [hop] at h
  case mov => exact next (keepsOutside_move (by simp [hop, Opcode.WritesOperand])) h
  case load => exact next (keepsOutside_load (by simp [hop, Opcode.WritesOperand])) h
  case ldstr => exact next (keepsOutside_loadString (by simp [hop, Opcode.WritesOperand])) h
  case store => exact next (keepsOutside_store hop) h
  case cmp => exact next (keepsOutside_compare hop) h
  case jmp | je | jne | jg | jl =>
    obtain ⟨target, -, h⟩ := Action.lift_bind_eq_ok_iff.1 h
    cases h
    exact .refl m
  case call =>
    obtain ⟨target, -, h⟩ := Action.lift_bind_eq_ok_iff.1 h
    obtain ⟨_, after, hpush, h⟩ := Action.bind_eq_ok_iff.1 h
    obtain ⟨calls, -, rfl⟩ := Action.onPart_eq_ok_iff.1 hpush
    cases h
    exact .setCalls (.calls (by simp [hop])) calls
  case ret =>
    obtain ⟨caller, after, hpop, h⟩ := Action.bind_eq_ok_iff.1 h
    obtain ⟨calls, -, rfl⟩ := Action.onPart_eq_ok_iff.1 hpop
    cases h
    exact .setCalls (.calls (by simp [hop])) calls
  case syscall => exact absurd hop hservice
  all_goals
    exact next (keepsOutside_combine
      (by simp [hop, Opcode.WritesOperand, Opcode.IsArithmetic])) h

/-- Recording an event makes no difference to what an instruction may change. -/
theorem Owns.of_note {event : Unit → Event} (h : (m.note event).Owns i c) : m.Owns i c := by
  cases h with
  | destination hop ho hc => exact .destination hop ho hc
  | flag hop => exact .flag hop
  | @stored o a k hop ho ha hle hlt =>
    have hread : (m.note event).read o = m.read o := by cases o <;> rfl
    exact .stored hop ho (hread ▸ ha) hle hlt
  | calls hop => exact .calls hop
  | service hop h => exact .service hop h.of_note

theorem keepsOutside_execute {flow : Flow} (h : execute .standard i m = (.ok flow, m')) :
    KeepsOutside (m.Owns i) m m' := by
  by_cases hop : i.opcode = .syscall
  · simp only [execute, hop, callService, Action.get_bind] at h
    obtain ⟨outcome, after, hcall, h⟩ := Action.bind_eq_ok_iff.1 h
    have hkeeps : KeepsOutside (m.Owns i) m (Registry.standard.call (m.arg 0) m).2 :=
      (keepsOutside_call (m.arg 0) m).mono fun _ => .service hop
    rw [hcall] at hkeeps
    cases outcome <;> cases h <;> exact hkeeps
  · rw [execute_of_ne_syscall hop] at h
    exact keepsOutside_perform hop h

theorem keepsOutside_step {status : Option Int32} (hi : m.program.instructions[m.pc]? = some i)
    (h : m.step .standard = (.ok status, m')) : KeepsOutside (m.Owns i) m m' := by
  let noted := m.note fun _ => .executing m.pc i
  have hexecute {flow : Flow} {after : Machine}
      (h : execute .standard i noted = (.ok flow, after)) : KeepsOutside (m.Owns i) m after :=
    (KeepsOutside.note m _).trans ((keepsOutside_execute h).mono fun _ => Owns.of_note)
  simp only [step, hi] at h
  split at h <;> rename_i heq <;> cases h
  · exact (hexecute heq).trans (.setPc _ _)
  · exact (hexecute heq).trans (.setPc _ _)
  · exact hexecute heq

/-- What no instruction on the way owns, a run keeps. -/
theorem keeps_of_advance {n : Nat} (h : advance .standard n m = (none, m'))
    (hc : ∀ k < n, ∀ a i, advance .standard k m = (none, a) →
      a.program.instructions[a.pc]? = some i → ¬ a.Owns i c) : m.Keeps m' c := by
  induction n generalizing m' with
  | zero =>
    cases h
    exact .refl m c
  | succ n ih =>
    obtain ⟨a, ha, hrun, hs⟩ := advance_succ_eq_none_iff.1 h
    obtain ⟨i, hi⟩ := isRunning_iff.1 hrun
    have hkept : m.Keeps a c := ih ha fun k hk => hc k (Nat.lt_succ_of_lt hk)
    exact hkept.trans (keepsOutside_step hi hs c (hc n (Nat.lt_succ_self n) a i ha hi))

theorem Steps.pc_of_syscall {status : Option Int32} (h : m.Steps i (.ok status) m')
    (hop : i.opcode = .syscall) : m'.pc = if status.isSome then m.pc else m.pc + 1 := by
  cases h with
  | next h => rfl
  | jump h =>
    cases h with
    | jump _ hshape => simp [hop, Opcode.shape] at hshape
    | call _ hcall => simp [hop] at hcall
    | ret _ hret => simp [hop] at hret
  | exit h =>
    cases h with
    | exit h => exact h.pc

theorem Steps.callers_of_ret {status : Option Int32} (h : m.Steps i (.ok status) m')
    (hop : i.opcode = .ret) : ∃ caller, m.calls.callers = caller :: m'.calls.callers := by
  cases h with
  | next h =>
    cases h with
    | next _ _ hret => exact absurd hop hret
  | jump h =>
    cases h with
    | jump _ hshape => simp [hop, Opcode.shape] at hshape
    | call _ hcall => simp [hop] at hcall
    | ret _ _ hpop => exact ⟨_, (CallStack.callers_of_pop hpop).1⟩
  | exit h =>
    cases h with
    | exit _ hservice => simp [hop] at hservice

theorem Steps.opcode_of_exit {status : Int32} (h : m.Steps i (.ok (some status)) m') :
    i.opcode = .syscall := by
  cases h with
  | exit h =>
    cases h with
    | exit _ hop => exact hop

/-- The services matter to syscalls only. -/
theorem step_eq_standard {r : Registry} (hi : m.program.instructions[m.pc]? = some i)
    (hr : i.opcode = .syscall → r = .standard) : m.step r = m.step .standard := by
  by_cases hop : i.opcode = .syscall
  · rw [hr hop]
  · simp only [step, hi, execute_of_ne_syscall hop]

/-- What a step at the instruction `i` that does not fail does to `m`. The program ends there if
there is a status. -/
structure StaysWithin (m : Machine) (i : Instruction) (status : Option Int32) (m' : Machine) : Prop
    extends m.SameResources m' where
  cells : ∀ c, ¬ m.Owns i c → m.Keeps m' c
  /-- A service does not jump. -/
  pc : i.opcode = .syscall → m'.pc = if status.isSome then m.pc else m.pc + 1
  exit : status.isSome → i.opcode = .syscall
  pushed : i.opcode = .call → m'.calls.callers = m.pc :: m.calls.callers
  popped : i.opcode = .ret → ∃ caller, m.calls.callers = caller :: m'.calls.callers

/-- Every step that does not fail changes the program counter and the cells that its instruction
owns, and nothing else. Calls push one address and returns pop one. Syscalls are those of the
standard services; for other instructions the services may be any. -/
theorem staysWithin_of_step {r : Registry} {status : Option Int32}
    (hi : m.program.instructions[m.pc]? = some i) (hr : i.opcode = .syscall → r = .standard)
    (h : m.step r = (.ok status, m')) : m.StaysWithin i status m' := by
  rw [step_eq_standard hi hr] at h
  have hsteps := steps_of_step Registry.isConfined_standard hi h
  refine ⟨hsteps.sameResources, keepsOutside_step hi h, hsteps.pc_of_syscall, ?exit, ?pushed,
    hsteps.callers_of_ret⟩
  case exit =>
    intro hstatus
    obtain ⟨value, rfl⟩ := Option.isSome_iff_exists.1 hstatus
    exact hsteps.opcode_of_exit
  case pushed =>
    intro hop
    cases status with
    | none => exact hsteps.callers_of_call hop
    | some value => exact absurd (hop.symm.trans hsteps.opcode_of_exit) (by decide)

/-- A stored literal stays between the bytes around it, and the other arguments stay too. -/
theorem staysWithin_of_step_storeLiteral :
    let i : Instruction := ⟨.syscall, []⟩
    let m : Machine :=
      { start { memorySize := 8 } { instructions := #[i], strings := #["hi".toList] } {} with
        memory := (Buffer.zeros 8).fill 7
        syscallRegisters := #v[14, 0, 3, 9, 9, 9, 9, 9] }
    ∃ m', m.program.instructions[m.pc]? = some i ∧ m.step .standard = (.ok none, m') ∧
      m.StaysWithin i none m' ∧ m'.memory.toList = [7, 7, 7, 104, 105, 0, 7, 7] ∧
      m'.syscallRegisters = #v[2, 0, 3, 9, 9, 9, 9, 9] ∧ m'.pc = 1 := by
  intro i m
  have hi : m.program.instructions[m.pc]? = some i := rfl
  have h : m.step .standard = (.ok none, (m.step .standard).2) :=
    Prod.fst_eq_iff.1 (by decide +kernel)
  exact ⟨_, hi, h, staysWithin_of_step hi (fun _ => rfl) h, by decide +kernel, by decide +kernel,
    by decide +kernel⟩

end Machine

end RegisterMachine
