import RegisterMachine.Proofs.Machine.Atomicity
import RegisterMachine.Proofs.Machine.Shape
import RegisterMachine.Service.Standard

/-!
# What services leave alone

A service works on the syscall registers, the bytes of memory, the heap, the variables and the
console. It keeps the shape of the machine and the general registers, and one that fails keeps all
but the console, except for the heap where it has run out of handles. Handlers are built from a few
combinators, so this is proved once for each of those and then read off every handler of the
standard services.
-/

namespace RegisterMachine

/-- The heap has no handle left. -/
def ServiceError.IsExhaustion (e : ServiceError) : Prop :=
  e = .alloc .exhausted

/-- The fault of a service for which the heap has no handle left. -/
def Fault.IsExhaustion : Fault → Prop
  | .syscall _ _ cause => cause.IsExhaustion
  | _ => False

/-- A result that comes with the machine that it leaves behind, as seen from the machine `m` that it
started from: the shape and the general registers are those of `m`, and after a failure everything
but the console is. Only an error that is `Exhausting` may come with another heap. -/
structure Confined {ε α : Type} (Exhausting : ε → Prop) (m : Machine)
    (r : Except ε α × Machine) : Prop extends m.SameShape r.2 where
  registers : r.2.registers = m.registers
  failed : ∀ e, r.1 = .error e → r.2 = { m with heap := r.2.heap, console := r.2.console }
  heap_of_failed : ∀ e, r.1 = .error e → ¬ Exhausting e → r.2.heap = m.heap

namespace Service

open RegisterMachine.Action (IsAtomic)

/-- A service that started from `m` has left the machine `r.2` behind. -/
abbrev IsConfined (m : Machine) (r : Reply) : Prop :=
  Confined ServiceError.IsExhaustion m r

variable {m : Machine}

theorem isConfined_of_ok {m' : Machine} {o : Outcome} (h : m.SameShape m')
    (hr : m'.registers = m.registers) : IsConfined m (.ok o, m') :=
  ⟨h, hr, nofun, nofun⟩

theorem isConfined_of_error (e : ServiceError) (console : Console) :
    IsConfined m (.error e, { m with console }) :=
  ⟨⟨rfl, rfl, rfl, rfl⟩, rfl, fun _ _ => rfl, fun _ _ _ => rfl⟩

theorem isConfined_println (text : Text) : IsConfined m (println m text) := by
  unfold println
  split
  · exact isConfined_of_ok ⟨rfl, rfl, rfl, rfl⟩ rfl
  · exact isConfined_of_error _ _

theorem isConfined_withLiteral {n : Fin syscallRegisterCount} {next : Text → Reply}
    (h : ∀ text, IsConfined m (next text)) : IsConfined m (withLiteral m n next) := by
  unfold withLiteral
  split
  · exact h _
  · exact isConfined_of_error _ _

theorem isConfined_withRange {address len : Int32} {next : Nat → Reply}
    (h : ∀ start, IsConfined m (next start)) : IsConfined m (withRange m address len next) := by
  unfold withRange
  split
  · exact h _
  · exact isConfined_of_error _ _

theorem isConfined_answer (value : Except ServiceError Int32) :
    IsConfined m (answer m value) := by
  cases value with
  | ok value => exact isConfined_of_ok ⟨rfl, rfl, rfl, rfl⟩ rfl
  | error e => exact isConfined_of_error _ _

section Parts

variable {α : Type}

theorem isConfined_onHeap {x : Action Heap AllocError α} {next : α → Machine → Machine}
    (hx : ∀ h e h', x h = (.error e, h') → e ≠ .exhausted → h' = h)
    (hnext : ∀ a heap, m.SameShape (next a { m with heap }) ∧
      (next a { m with heap }).registers = m.registers) :
    IsConfined m (proceed m (onHeap x) next) := by
  cases hresult : x m.heap with
  | mk result heap =>
    rw [proceed, onHeap, Action.onPart, hresult]
    cases result with
    | ok a => exact isConfined_of_ok (hnext a heap).1 (hnext a heap).2
    | error e =>
      refine ⟨⟨rfl, rfl, rfl, rfl⟩, rfl, fun _ _ => rfl, fun e' he' hexhausted => ?_⟩
      cases he'
      exact hx _ _ _ hresult fun he => hexhausted (congrArg ServiceError.alloc he)

theorem isConfined_onHeap_of_isAtomic {x : Action Heap AllocError α}
    {next : α → Machine → Machine} (hx : IsAtomic x)
    (hnext : ∀ a heap, m.SameShape (next a { m with heap }) ∧
      (next a { m with heap }).registers = m.registers) :
    IsConfined m (proceed m (onHeap x) next) :=
  isConfined_onHeap (fun h e h' hfail _ => hx h e h' hfail) hnext

theorem isConfined_onScopes {x : Action NamedScopes ScopeError Unit} (hx : IsAtomic x) :
    IsConfined m (proceed m (onScopes x) fun _ m => m) := by
  cases hresult : x m.scopes with
  | mk result scopes =>
    rw [proceed, onScopes, Action.onPart, hresult]
    cases result with
    | ok a => exact isConfined_of_ok ⟨rfl, rfl, rfl, rfl⟩ rfl
    | error e =>
      rw [hx _ _ _ hresult]
      exact isConfined_of_error _ _

theorem isConfined_onFrames {x : Action StackScopes ScopeError Unit}
    {next : Unit → Machine → Machine} (hx : IsAtomic x)
    (hnext : ∀ a frames, m.SameShape (next a { m with frames }) ∧
      (next a { m with frames }).registers = m.registers) :
    IsConfined m (proceed m (onFrames x) next) := by
  cases hresult : x m.frames with
  | mk result frames =>
    rw [proceed, onFrames, Action.onPart, hresult]
    cases result with
    | ok a => exact isConfined_of_ok (hnext a frames).1 (hnext a frames).2
    | error e =>
      rw [hx _ _ _ hresult]
      exact isConfined_of_error _ _

end Parts

theorem isConfined_readInt (m : Machine) : IsConfined m (readInt m) := by
  unfold readInt
  split
  · exact isConfined_of_ok ⟨rfl, rfl, rfl, rfl⟩ rfl
  · exact isConfined_of_error _ _

theorem isConfined_copyMemory (m : Machine) : IsConfined m (copyMemory m) := by
  refine isConfined_withRange fun src => isConfined_withRange fun dst => ?_
  exact isConfined_of_ok ⟨rfl, Buffer.size_copy _ _ _ _, rfl, rfl⟩ rfl

theorem isConfined_storeLiteral (m : Machine) : IsConfined m (storeLiteral m) := by
  refine isConfined_withLiteral fun text => ?_
  dsimp only
  split
  · exact isConfined_of_error _ _
  · refine isConfined_withRange fun start => ?_
    exact isConfined_of_ok ⟨rfl, Buffer.size_write _ _ _, rfl, rfl⟩ rfl

theorem isConfined_corePlugin : ∀ s ∈ corePlugin.services, ∀ m, IsConfined m (s.handler m) := by
  simp only [corePlugin, List.forall_mem_cons, List.not_mem_nil, false_imp_iff, implies_true,
    and_true]
  exact ⟨fun m => isConfined_println _,
    fun m => isConfined_withRange fun _ => isConfined_println _,
    fun m => isConfined_of_ok (.refl m) rfl,
    fun m => isConfined_withLiteral isConfined_println,
    isConfined_readInt,
    fun m => isConfined_println _,
    isConfined_copyMemory,
    isConfined_storeLiteral,
    fun m => isConfined_of_ok ⟨rfl, rfl, rfl, rfl⟩ rfl⟩

theorem isConfined_memoryPlugin :
    ∀ s ∈ memoryPlugin.services, ∀ m, IsConfined m (s.handler m) := by
  simp only [memoryPlugin, List.forall_mem_cons, List.not_mem_nil, false_imp_iff, implies_true,
    and_true]
  refine ⟨?alloc, ?realloc, ?free, ?load, ?store, ?size⟩ <;> intro m
  case alloc =>
    exact isConfined_onHeap (fun _ _ _ => Heap.eq_of_alloc_failed)
      fun _ _ => ⟨⟨rfl, rfl, rfl, rfl⟩, rfl⟩
  case realloc =>
    exact isConfined_onHeap_of_isAtomic Heap.isAtomic_realloc
      fun _ _ => ⟨⟨rfl, rfl, rfl, rfl⟩, rfl⟩
  case free =>
    exact isConfined_onHeap_of_isAtomic Heap.isAtomic_free fun _ _ => ⟨⟨rfl, rfl, rfl, rfl⟩, rfl⟩
  case load => exact isConfined_answer _
  case store =>
    exact isConfined_onHeap_of_isAtomic Heap.isAtomic_store fun _ _ => ⟨⟨rfl, rfl, rfl, rfl⟩, rfl⟩
  case size => exact isConfined_answer _

theorem isConfined_variablesPlugin :
    ∀ s ∈ variablesPlugin.services, ∀ m, IsConfined m (s.handler m) := by
  simp only [variablesPlugin, List.forall_mem_cons, List.not_mem_nil, false_imp_iff, implies_true,
    and_true]
  refine ⟨?create, ?destroy, ?declare, ?get, ?set, ?push, ?pop, ?declareInFrame, ?getInFrame,
    ?setInFrame⟩ <;> intro m
  case create =>
    exact isConfined_withLiteral fun _ => isConfined_onScopes NamedScopes.isAtomic_create
  case destroy =>
    exact isConfined_withLiteral fun _ => isConfined_onScopes NamedScopes.isAtomic_destroy
  case declare =>
    exact isConfined_withLiteral fun _ => isConfined_withLiteral fun _ =>
      isConfined_onScopes NamedScopes.isAtomic_declare
  case get =>
    exact isConfined_withLiteral fun _ => isConfined_withLiteral fun _ => isConfined_answer _
  case set =>
    exact isConfined_withLiteral fun _ => isConfined_withLiteral fun _ =>
      isConfined_onScopes NamedScopes.isAtomic_set
  case push => exact isConfined_of_ok ⟨rfl, rfl, rfl, rfl⟩ rfl
  case pop =>
    exact isConfined_onFrames StackScopes.isAtomic_pop fun _ _ => ⟨⟨rfl, rfl, rfl, rfl⟩, rfl⟩
  case declareInFrame =>
    exact isConfined_withLiteral fun _ =>
      isConfined_onFrames StackScopes.isAtomic_declare fun _ _ => ⟨⟨rfl, rfl, rfl, rfl⟩, rfl⟩
  case getInFrame => exact isConfined_withLiteral fun _ => isConfined_answer _
  case setInFrame =>
    exact isConfined_withLiteral fun _ =>
      isConfined_onFrames StackScopes.isAtomic_set fun _ _ => ⟨⟨rfl, rfl, rfl, rfl⟩, rfl⟩

end Service

namespace Registry

/-- Every service of the registry keeps the shape of the machine and the general registers. -/
def IsConfined (r : Registry) : Prop :=
  ∀ e ∈ r.registrations, ∀ m, Service.IsConfined m (e.service.handler m)

theorem isConfined_standard : standard.IsConfined := by
  intro e he m
  obtain ⟨p, hp, he⟩ := List.mem_flatMap.1 he
  obtain ⟨s, hs, rfl⟩ := List.mem_map.1 he
  simp only [standardPlugins, List.mem_cons, List.not_mem_nil, or_false] at hp
  rcases hp with rfl | rfl | rfl
  · exact Service.isConfined_corePlugin s hs m
  · exact Service.isConfined_memoryPlugin s hs m
  · exact Service.isConfined_variablesPlugin s hs m

theorem IsConfined.call {r : Registry} (hr : r.IsConfined) (id : Int32) (m : Machine) :
    Confined Fault.IsExhaustion m (r.call id m) := by
  unfold Registry.call
  split
  · exact ⟨.refl m, rfl, fun _ _ => rfl, fun _ _ _ => rfl⟩
  · rename_i e he
    have hmem := List.mem_of_find?_eq_some he
    have h := hr e hmem (m.note fun _ => .calling id e.plugin e.service.name)
    split <;> rename_i heq <;> rw [heq] at h
    · exact ⟨⟨h.program, h.size_memory, h.pc, h.calls⟩, h.registers, nofun, nofun⟩
    · refine ⟨⟨h.program, h.size_memory, h.pc, h.calls⟩, h.registers, fun _ _ => h.failed _ rfl,
        fun fault hfault hexhausted => ?_⟩
      cases hfault
      exact h.heap_of_failed _ rfl hexhausted

end Registry

end RegisterMachine
