import RegisterMachine.Proofs.Machine.Setting
import RegisterMachine.Service.Standard

/-!
# Services in another setting

A service sees of the program only its strings, and of memory only the bytes of the ranges that it
is given. So in a setting with more room it does the same, unless it fails here because a range is
out of bounds. As in the account of what services leave alone, this is proved for the combinators
and read off the handlers.
-/

namespace RegisterMachine

theorem Word.eq_of_index? {i : Int32} {n : Nat} (h : index? i = some n) : n = i.toInt.toNat := by
  unfold index? at h
  split at h <;> cases h
  rfl

/-- An error of a service in `s` that need not happen in `t`. -/
def Setting.ExcusesService (s t : Setting) (e : ServiceError) : Prop :=
  s.IsTighter t ∧ e.IsShortage

namespace Service

variable {m : Machine} {t : Setting} {excused : ServiceError → Prop}

theorem follows_println (text : Text) :
    Follows t excused (println m text) (println (m.transfer t) text) := by
  have hconsole : (m.transfer t).console = m.console := rfl
  unfold println
  rw [hconsole]
  split
  · exact .same _ _
  · exact .same _ _

theorem follows_proceed {α : Type} {x : Action Machine ServiceError α}
    {next : α → Machine → Machine} (hx : Follows t excused (x m) (x (m.transfer t)))
    (hnext : ∀ a m', next a (m'.transfer t) = (next a m').transfer t) :
    Follows t excused (proceed m x next) (proceed (m.transfer t) x next) := by
  unfold proceed
  generalize x m = r at hx
  generalize x (m.transfer t) = r' at hx
  cases hx with
  | same result m' =>
    cases result with
    | ok a =>
      simp only [hnext]
      exact .same _ _
    | error e => exact .same _ _
  | excused he r' => exact .excused he _

theorem follows_answer (value : Except ServiceError Int32) :
    Follows t excused (answer m value) (answer (m.transfer t) value) :=
  follows_proceed (.same _ _) fun _ _ => rfl

theorem follows_onHeap {α : Type} (x : Action Heap AllocError α) :
    Follows t excused (onHeap x m) (onHeap x (m.transfer t)) :=
  .same _ { m with heap := (x m.heap).2 }

theorem follows_onScopes (x : Action NamedScopes ScopeError Unit) :
    Follows t excused (onScopes x m) (onScopes x (m.transfer t)) :=
  .same _ { m with scopes := (x m.scopes).2 }

theorem follows_onFrames (x : Action StackScopes ScopeError Unit) :
    Follows t excused (onFrames x m) (onFrames x (m.transfer t)) :=
  .same _ { m with frames := (x m.frames).2 }

section Below

variable (h : m.setting.Below t)
include h

theorem follows_withLiteral {n : Fin syscallRegisterCount} {next next' : Text → Reply}
    (hnext : ∀ text, Follows t excused (next text) (next' text)) :
    Follows t excused (withLiteral m n next) (withLiteral (m.transfer t) n next') := by
  have hliteral : (m.transfer t).program.literal? ((m.transfer t).arg n) =
      m.program.literal? (m.arg n) := by
    have hstrings : t.program.strings = m.program.strings := h.strings
    show t.program.literal? (m.arg n) = _
    rw [Program.literal?, Program.literal?, hstrings]
  unfold withLiteral
  rw [hliteral]
  cases m.program.literal? (m.arg n) with
  | some text => exact hnext text
  | none => exact .same _ _

theorem follows_withRange {address len : Int32} {next next' : Nat → Reply}
    (hnext : ∀ start, start + len.toInt.toNat ≤ m.memory.size →
      Follows t (m.setting.ExcusesService t) (next start) (next' start)) :
    Follows t (m.setting.ExcusesService t) (withRange m address len next)
      (withRange (m.transfer t) address len next') := by
  unfold withRange Machine.serviceRange
  cases hlen : Word.index? len with
  | none => exact .same _ _
  | some count =>
    cases hstart : m.range? address count with
    | some start =>
      simp only [Option.bind_some, hstart, Machine.range?_transfer_of_eq_some h hstart]
      apply hnext
      rw [← Word.eq_of_index? hlen]
      exact Machine.le_size_of_range? hstart
    | none =>
      by_cases ht : m.setting.IsTighter t
      · simp only [Option.bind_some, hstart]
        exact .excused ⟨ht, trivial⟩ _
      · simp only [Option.bind_some, Machine.range?_transfer h ht, hstart]
        exact .same _ _

theorem follows_printBytes :
    Follows t (m.setting.ExcusesService t) (printBytes m) (printBytes (m.transfer t)) := by
  apply follows_withRange h
  intro start _
  have hbytes : (m.transfer t).memory.untilZero start = m.memory.untilZero start :=
    Buffer.untilZero_resize h.memorySize_le start
  rw [hbytes]
  exact follows_println _

omit h in
theorem follows_readInt : Follows t excused (readInt m) (readInt (m.transfer t)) := by
  have hconsole : (m.transfer t).console = m.console := rfl
  unfold readInt
  rw [hconsole]
  split
  · exact .same _ _
  · exact .same _ _

theorem follows_copyMemory :
    Follows t (m.setting.ExcusesService t) (copyMemory m) (copyMemory (m.transfer t)) := by
  apply follows_withRange h
  intro src _
  apply follows_withRange h
  intro dst hdst
  have hcopy : (m.transfer t).memory.copy src dst (m.arg 3).toInt.toNat =
      (m.memory.copy src dst (m.arg 3).toInt.toNat).resize t.memorySize :=
    Buffer.copy_resize h.memorySize_le hdst
  have harg : (m.transfer t).arg 3 = m.arg 3 := rfl
  simp only [harg, hcopy]
  exact .same _ { m with memory := m.memory.copy src dst (m.arg 3).toInt.toNat }

theorem follows_storeLiteral :
    Follows t (m.setting.ExcusesService t) (storeLiteral m) (storeLiteral (m.transfer t)) := by
  apply follows_withLiteral h
  intro text
  dsimp only
  split
  · exact .same _ _
  rename_i hfits
  apply follows_withRange h
  intro start hrange
  have hlen : (Int32.ofNat ((Utf8.encode text).length + 1)).toInt.toNat =
      (Utf8.encode text ++ [0]).length := by
    rw [Int32.toInt_ofNat_of_lt (by omega)]
    simp
  have hwrite : (m.transfer t).memory.write start (Utf8.encode text ++ [0]) =
      (m.memory.write start (Utf8.encode text ++ [0])).resize t.memorySize :=
    Buffer.write_resize h.memorySize_le (hlen ▸ hrange)
  simp only [hwrite]
  exact .same _ ({ m with memory := m.memory.write start (Utf8.encode text ++ [0]) }.setArg 0 _)

end Below

theorem follows_corePlugin : ∀ s ∈ corePlugin.services, ∀ m : Machine, m.setting.Below t →
    Follows t (m.setting.ExcusesService t) (s.handler m) (s.handler (m.transfer t)) := by
  simp only [corePlugin, List.forall_mem_cons, List.not_mem_nil, false_imp_iff, implies_true,
    and_true]
  refine ⟨?printInt, ?printBytes, ?exit, ?printLiteral, ?readInt, ?printFloat, ?copyMemory,
    ?storeLiteral, ?time⟩ <;> intro m h
  case printInt => exact follows_println _
  case printBytes => exact follows_printBytes h
  case exit => exact .same _ _
  case printLiteral => exact follows_withLiteral h follows_println
  case readInt => exact follows_readInt
  case printFloat => exact follows_println _
  case copyMemory => exact follows_copyMemory h
  case storeLiteral => exact follows_storeLiteral h
  case time => exact .same _ _

theorem follows_memoryPlugin : ∀ s ∈ memoryPlugin.services, ∀ m : Machine,
    Follows t excused (s.handler m) (s.handler (m.transfer t)) := by
  simp only [memoryPlugin, List.forall_mem_cons, List.not_mem_nil, false_imp_iff, implies_true,
    and_true]
  refine ⟨?alloc, ?realloc, ?free, ?load, ?store, ?size⟩ <;> intro m
  case alloc | realloc | free | store => exact follows_proceed (follows_onHeap _) fun _ _ => rfl
  case load | size => exact follows_answer _

theorem follows_variablesPlugin : ∀ s ∈ variablesPlugin.services, ∀ m : Machine,
    m.setting.Below t → Follows t excused (s.handler m) (s.handler (m.transfer t)) := by
  simp only [variablesPlugin, List.forall_mem_cons, List.not_mem_nil, false_imp_iff, implies_true,
    and_true]
  refine ⟨?create, ?destroy, ?declare, ?get, ?set, ?push, ?pop, ?declareInFrame, ?getInFrame,
    ?setInFrame⟩ <;> intro m h
  case push => exact .same _ _
  case pop => exact follows_proceed (follows_onFrames _) fun _ _ => rfl
  case create | destroy =>
    refine follows_withLiteral h fun scope => ?_
    exact follows_proceed (follows_onScopes _) fun _ _ => rfl
  case declare | set =>
    refine follows_withLiteral h fun scope => follows_withLiteral h fun name => ?_
    exact follows_proceed (follows_onScopes _) fun _ _ => rfl
  case get =>
    refine follows_withLiteral h fun scope => follows_withLiteral h fun name => ?_
    exact follows_answer _
  case declareInFrame | setInFrame =>
    refine follows_withLiteral h fun name => ?_
    exact follows_proceed (follows_onFrames _) fun _ _ => rfl
  case getInFrame => exact follows_withLiteral h fun name => follows_answer _

end Service

namespace Registry

/-- Every service of the registry does the same in another setting. -/
def IsTransferable (r : Registry) : Prop :=
  ∀ e ∈ r.registrations, ∀ (m : Machine) (t : Setting), m.setting.Below t →
    Follows t (m.setting.ExcusesService t) (e.service.handler m) (e.service.handler (m.transfer t))

theorem isTransferable_standard : standard.IsTransferable := by
  intro e he m t h
  obtain ⟨p, hp, he⟩ := List.mem_flatMap.1 he
  obtain ⟨s, hs, rfl⟩ := List.mem_map.1 he
  simp only [standardPlugins, List.mem_cons, List.not_mem_nil, or_false] at hp
  rcases hp with rfl | rfl | rfl
  · exact Service.follows_corePlugin s hs m h
  · exact Service.follows_memoryPlugin s hs m
  · exact Service.follows_variablesPlugin s hs m h

theorem IsTransferable.call {r : Registry} (hr : r.IsTransferable) (id : Int32) {m : Machine}
    {t : Setting} (h : m.setting.Below t) :
    Follows t (m.setting.Excuses t) (r.call id m) (r.call id (m.transfer t)) := by
  unfold Registry.call
  cases he : r.find? id with
  | none => exact .same _ _
  | some e =>
    have hmem := List.mem_of_find?_eq_some he
    have hnote : (m.transfer t).note (fun _ => .calling id e.plugin e.service.name) =
        (m.note fun _ => .calling id e.plugin e.service.name).transfer t := rfl
    have hf := hr e hmem (m.note fun _ => .calling id e.plugin e.service.name) t h
    simp only [hnote]
    generalize e.service.handler _ = x at hf ⊢
    generalize e.service.handler _ = y at hf ⊢
    cases hf with
    | same result m' => cases result <;> exact .same _ _
    | @excused cause _ he _ =>
      have hfault : m.setting.Excuses t (.syscall id e.service.name cause) := he
      exact .excused hfault _

end Registry

end RegisterMachine
