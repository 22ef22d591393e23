import RegisterMachine.Machine.Step
import RegisterMachine.Proofs.Action
import RegisterMachine.Proofs.Machine.Buffer

/-!
# Settings

The setting of a machine is what its steps never change: the program, the size of memory and the
number of calls that may be pending. A machine may be moved to a setting with as much room or more,
whose program has the same instructions and strings (`Setting.Below`). There each instruction does
what it does here, unless it fails here for want of room (`Machine.tracks_perform`).
-/

namespace RegisterMachine

/-- What stays the same while a machine runs. -/
structure Setting where
  program : Program
  memorySize : Nat
  callDepth : Nat

namespace Setting

/-- The instructions and the strings are the same, and there is as much room in `t` or more. The
other tables of the programs may differ. -/
structure Below (s t : Setting) : Prop where
  instructions : t.program.instructions = s.program.instructions
  strings : t.program.strings = s.program.strings
  memorySize_le : s.memorySize ≤ t.memorySize
  callDepth_le : s.callDepth ≤ t.callDepth

/-- There is more room in `t`. -/
def IsTighter (s t : Setting) : Prop :=
  s.memorySize < t.memorySize ∨ s.callDepth < t.callDepth

end Setting

def ServiceError.IsShortage : ServiceError → Prop
  | .memory _ _ => True
  | _ => False

/-- A fault for want of memory or of room for calls. -/
def Fault.IsShortage : Fault → Prop
  | .memoryOutOfRange _ _ _ | .stackOverflow _ => True
  | .syscall _ _ cause => cause.IsShortage
  | _ => False

/-- A fault in `s` that need not happen in `t`. -/
def Setting.Excuses (s t : Setting) (fault : Fault) : Prop :=
  s.IsTighter t ∧ fault.IsShortage

/-- The second result is the first, unless the first is an excused error. -/
inductive Tracks {ε α : Type} (excused : ε → Prop) : Except ε α → Except ε α → Prop
  | same (x : Except ε α) : Tracks excused x x
  | excused {e : ε} (h : excused e) (y : Except ε α) : Tracks excused (.error e) y

theorem Tracks.bind {ε α β : Type} {excused : ε → Prop} {x y : Except ε α}
    {f g : α → Except ε β} (hx : Tracks excused x y) (hf : ∀ a, x = .ok a → f a = g a) :
    Tracks excused (x >>= f) (y >>= g) := by
  cases hx with
  | same x =>
    cases x with
    | ok a =>
      show Tracks excused (f a) (g a)
      rw [hf a rfl]
      exact .same _
    | error e => exact .same _
  | excused h y => exact .excused h _

/-- The same pending calls with room for `n`. -/
def CallStack.withCapacity (s : CallStack) (n : Nat) : CallStack :=
  { s with capacity := n }

theorem CallStack.pop_withCapacity {n : Nat} (s : CallStack) :
    pop (s.withCapacity n) = ((pop s).1, (pop s).2.withCapacity n) := by
  cases hback : s.frames.back? with
  | none => rw [pop_of_empty hback, pop_of_empty (s := s.withCapacity n) hback]
  | some pc =>
    rw [pop_of_back? hback, pop_of_back? (s := s.withCapacity n) hback]
    rfl

namespace Machine

/-- The setting of a machine. -/
def setting (m : Machine) : Setting :=
  ⟨m.program, m.memory.size, m.calls.capacity⟩

/-- The machine in the setting `t`. Bytes that are new in memory are zero. -/
def transfer (t : Setting) (m : Machine) : Machine :=
  { m with
    program := t.program
    memory := m.memory.resize t.memorySize
    calls := m.calls.withCapacity t.callDepth }

end Machine

/-- The second result comes with the same machine in the setting `t`, unless the first is an excused
error. -/
inductive Follows {ε α : Type} (t : Setting) (excused : ε → Prop) :
    Except ε α × Machine → Except ε α × Machine → Prop
  | same (x : Except ε α) (m : Machine) : Follows t excused (x, m) (x, m.transfer t)
  | excused {e : ε} {m : Machine} (h : excused e) (y : Except ε α × Machine) :
    Follows t excused (.error e, m) y

namespace Follows

variable {ε α β : Type} {t : Setting} {excused : ε → Prop} {m m' : Machine}
  {f g : α → Action Machine ε β}

theorem bind {x y : Action Machine ε α} (hx : Follows t excused (x m) (y m'))
    (hf : ∀ a m₁, Follows t excused (f a m₁) (g a (m₁.transfer t))) :
    Follows t excused ((x >>= f) m) ((y >>= g) m') := by
  generalize h : x m = r at hx
  generalize h' : y m' = r' at hx
  cases hx with
  | same result m₁ =>
    cases result with
    | ok a =>
      rw [Action.bind_of_ok h, Action.bind_of_ok h']
      exact hf a m₁
    | error e =>
      rw [Action.bind_of_error h, Action.bind_of_error h']
      exact .same _ _
  | excused he y =>
    rw [Action.bind_of_error h]
    exact .excused he _

theorem modify {f : Machine → Machine} (hf : f (m.transfer t) = (f m).transfer t) :
    Follows t excused ((modify f : Action Machine ε Unit) m)
      ((modify f : Action Machine ε Unit) (m.transfer t)) := by
  rw [Action.modify_apply, Action.modify_apply, hf]
  exact .same _ _

theorem lift_bind {x y : Except ε α} (hx : Tracks excused x y)
    (hf : ∀ a, x = .ok a → Follows t excused (f a m) (g a (m.transfer t))) :
    Follows t excused (((liftM x : Action Machine ε α) >>= f) m)
      (((liftM y : Action Machine ε α) >>= g) (m.transfer t)) := by
  cases hx with
  | same x =>
    cases x with
    | ok a => exact hf a rfl
    | error e => exact .same _ _
  | excused he y => exact .excused he _

theorem lift_bind_same {x : Except ε α}
    (hf : ∀ a, Follows t excused (f a m) (g a (m.transfer t))) :
    Follows t excused (((liftM x : Action Machine ε α) >>= f) m)
      (((liftM x : Action Machine ε α) >>= g) (m.transfer t)) :=
  lift_bind (.same x) fun a _ => hf a

end Follows

namespace Machine

variable {m : Machine} {t : Setting} {i : Instruction} {a value : Int32} {len start : Nat}
  {excused : Fault → Prop}

theorem read_transfer (o : Operand) : (m.transfer t).read o = m.read o := by
  cases o <;> rfl

theorem follows_write (o : Operand) :
    Follows t excused (write o value m) (write o value (m.transfer t)) := by
  cases o with
  | register n | syscallRegister n =>
    simp only [write]
    split
    · exact .modify rfl
    · exact .same _ _
  | _ => exact .same _ _

theorem follows_move : Follows t excused (move i m) (move i (m.transfer t)) := by
  simp only [move, Action.get_bind, read_transfer]
  refine .lift_bind_same fun src => .lift_bind_same fun value => .lift_bind_same fun dest => ?_
  exact follows_write dest

theorem follows_combine : Follows t excused (combine i m) (combine i (m.transfer t)) := by
  simp only [combine, Action.get_bind, read_transfer]
  refine .lift_bind_same fun dest => .lift_bind_same fun a => .lift_bind_same fun src => ?_
  refine .lift_bind_same fun b => .lift_bind_same fun value => ?_
  exact follows_write dest

theorem follows_compare : Follows t excused (compare i m) (compare i (m.transfer t)) := by
  simp only [compare, Action.get_bind, read_transfer]
  refine .lift_bind_same fun dest => .lift_bind_same fun a => .lift_bind_same fun src => ?_
  exact .lift_bind_same fun b => .modify rfl

theorem follows_loadString : Follows t excused (loadString i m) (loadString i (m.transfer t)) := by
  refine .lift_bind_same fun src => ?_
  cases src with
  | string index => exact .lift_bind_same fun dest => follows_write dest
  | _ => exact .same _ _

theorem follows_onCalls {α : Type} {x : Action CallStack Fault α}
    (hx : x (m.transfer t).calls =
      ((x m.calls).1, (x m.calls).2.withCapacity t.callDepth)) :
    Follows t excused (onCalls x m) (onCalls x (m.transfer t)) := by
  rw [onCalls, Action.onPart, Action.onPart, hx]
  exact .same _ { m with calls := (x m.calls).2 }

theorem follows_leave : Follows t excused (leave m) (leave (m.transfer t)) :=
  (follows_onCalls (CallStack.pop_withCapacity m.calls)).bind fun _ m' => .same _ m'

theorem le_size_of_range? (h : m.range? a len = some start) : start + len ≤ m.memory.size := by
  simpa using (Option.filter_eq_some_iff.1 h).2

theorem le_size_of_wordAt (h : m.wordAt a = .ok start) : start + 4 ≤ m.memory.size := by
  unfold wordAt at h
  split at h <;> cases h
  exact le_size_of_range? (by assumption)

section Below

variable (h : m.setting.Below t)
include h

theorem memorySize_eq_of_not_isTighter (ht : ¬ m.setting.IsTighter t) :
    t.memorySize = m.memory.size := by
  have hle : m.memory.size ≤ t.memorySize := h.memorySize_le
  have hlt : ¬ m.memory.size < t.memorySize := fun hlt => ht (.inl hlt)
  omega

theorem callDepth_eq_of_not_isTighter (ht : ¬ m.setting.IsTighter t) :
    t.callDepth = m.calls.capacity := by
  have hle : m.calls.capacity ≤ t.callDepth := h.callDepth_le
  have hlt : ¬ m.calls.capacity < t.callDepth := fun hlt => ht (.inr hlt)
  omega

theorem range?_transfer_of_eq_some (hstart : m.range? a len = some start) :
    (m.transfer t).range? a len = some start := by
  have hle := le_size_of_range? hstart
  have hsize : m.memory.size ≤ t.memorySize := h.memorySize_le
  obtain ⟨ha, -⟩ := Option.filter_eq_some_iff.1 hstart
  exact Option.filter_eq_some_iff.2 ⟨ha, decide_eq_true (Nat.le_trans hle hsize)⟩

theorem range?_transfer (ht : ¬ m.setting.IsTighter t) (len : Nat) :
    (m.transfer t).range? a len = m.range? a len := by
  simp only [range?, transfer, Buffer.size_resize, memorySize_eq_of_not_isTighter h ht]

theorem tracks_wordAt : Tracks (m.setting.Excuses t) (m.wordAt a) ((m.transfer t).wordAt a) := by
  cases hstart : m.range? a 4 with
  | some start =>
    simp only [wordAt, hstart, range?_transfer_of_eq_some h hstart]
    exact .same _
  | none =>
    by_cases ht : m.setting.IsTighter t
    · simp only [wordAt, hstart]
      exact .excused ⟨ht, trivial⟩ _
    · have hsize : (m.transfer t).memory.size = m.memory.size :=
        memorySize_eq_of_not_isTighter h ht
      simp only [wordAt, range?_transfer h ht, hstart, hsize]
      exact .same _

theorem tracks_loadWord :
    Tracks (m.setting.Excuses t) (m.loadWord a) ((m.transfer t).loadWord a) := by
  apply (tracks_wordAt h).bind
  intro start _
  have hget (k : Nat) : (m.transfer t).memory.get k = m.memory.get k :=
    Buffer.get_resize h.memorySize_le k
  simp only [hget]

theorem follows_storeWord :
    Follows t (m.setting.Excuses t) (storeWord a value m) (storeWord a value (m.transfer t)) := by
  refine .lift_bind (tracks_wordAt h) fun start hstart => ?_
  have hrange : start + 4 ≤ m.memory.size := le_size_of_wordAt hstart
  have hwrite : (m.transfer t).memory.write start (Word.toBytes value.toUInt32) =
      (m.memory.write start (Word.toBytes value.toUInt32)).resize t.memorySize :=
    Buffer.write_resize h.memorySize_le hrange
  apply Follows.modify
  rw [hwrite]
  rfl

theorem target_transfer : (m.transfer t).target i = m.target i := by
  have hsize : t.program.size = m.program.size := congrArg Array.size h.instructions
  simp only [target, transfer, hsize]

theorem follows_load :
    Follows t (m.setting.Excuses t) (load i m) (load i (m.transfer t)) := by
  simp only [load, Action.get_bind, read_transfer]
  refine .lift_bind_same fun src => .lift_bind_same fun a => ?_
  refine .lift_bind (tracks_loadWord h) fun value _ => .lift_bind_same fun dest => ?_
  exact follows_write dest

theorem follows_store :
    Follows t (m.setting.Excuses t) (store i m) (store i (m.transfer t)) := by
  simp only [store, Action.get_bind, read_transfer]
  refine .lift_bind_same fun src => .lift_bind_same fun value => .lift_bind_same fun dest => ?_
  exact .lift_bind_same fun a => follows_storeWord h

theorem follows_jump : Follows t excused (jump i m) (jump i (m.transfer t)) := by
  simp only [jump, Action.get_bind, target_transfer h]
  exact .lift_bind_same fun target => .same _ m

theorem follows_push (pc : Nat) : Follows t (m.setting.Excuses t)
    (onCalls (CallStack.push pc) m) (onCalls (CallStack.push pc) (m.transfer t)) := by
  have hle : m.calls.capacity ≤ t.callDepth := h.callDepth_le
  rcases Nat.lt_or_ge m.calls.depth m.calls.capacity with hroom | hfull
  · apply follows_onCalls
    have hroom' : (m.transfer t).calls.depth < (m.transfer t).calls.capacity := by
      show m.calls.depth < t.callDepth
      omega
    rw [CallStack.push_of_room hroom, CallStack.push_of_room hroom']
    rfl
  by_cases ht : m.setting.IsTighter t
  · rw [onCalls, Action.onPart, CallStack.push_of_full hfull]
    exact .excused ⟨ht, trivial⟩ _
  · have hcalls : m.calls.withCapacity t.callDepth = m.calls := by
      rw [callDepth_eq_of_not_isTighter h ht]
      rfl
    apply follows_onCalls
    rw [transfer, hcalls, CallStack.push_of_full hfull, hcalls]

theorem follows_enter :
    Follows t (m.setting.Excuses t) (enter i m) (enter i (m.transfer t)) := by
  simp only [enter, Action.get_bind, target_transfer h]
  exact .lift_bind_same fun target => (follows_push h m.pc).bind fun _ m₁ => .same _ m₁

/-- In the setting `t` an instruction does what it does here, unless it fails here for want of
room. -/
theorem follows_perform :
    Follows t (m.setting.Excuses t) (perform i m) (perform i (m.transfer t)) := by
  have next {x : Action Machine Fault Unit}
      (hx : Follows t (m.setting.Excuses t) (x m) (x (m.transfer t))) :
      Follows t (m.setting.Excuses t) (andNext x m) (andNext x (m.transfer t)) :=
    hx.bind fun _ m' => .same _ m'
  unfold perform
  cases i.opcode with
  | mov => exact next follows_move
  | load => exact next (follows_load h)
  | store => exact next (follows_store h)
  | cmp => exact next follows_compare
  | ldstr => exact next follows_loadString
  | jmp | je | jne | jg | jl => exact follows_jump h
  | call => exact follows_enter h
  | ret => exact follows_leave
  | _ => exact next follows_combine

end Below

end Machine

end RegisterMachine
