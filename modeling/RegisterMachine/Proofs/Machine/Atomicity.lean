import RegisterMachine.Machine.Step
import RegisterMachine.Proofs.Action

/-!
# Actions that change nothing where they fail

Nearly every action of a machine makes all of its checks before its first change. The exception is
an allocation of a block for which no handle is left: the block is made before its handle turns out
to be no word.
-/

namespace RegisterMachine

open RegisterMachine.Action (IsAtomic)

namespace HandleTable

variable {β : Type} {order : ReuseOrder} {handle : Int32}

theorem isAtomic_free : IsAtomic (free order handle : Action (HandleTable β) AllocError Unit) :=
  .get_bind fun _ => .lift_bind fun _ => .modify _

end HandleTable

namespace Blocks

variable {handle offset size value : Int32} {t t' : Blocks} {e : AllocError}

theorem eq_of_alloc_failed (h : alloc size t = (.error e, t')) (he : e ≠ .exhausted) : t' = t := by
  rcases Action.lift_bind_eq_error_iff.1 h with ⟨-, rfl⟩ | ⟨n, -, h⟩
  · rfl
  rcases Action.bind_eq_error_iff.1 h with h | ⟨index, u, -, h⟩
  · cases h
  split at h <;> cases h
  exact absurd rfl he

theorem isAtomic_realloc : IsAtomic (realloc handle size) :=
  .lift_bind fun _ => .get_bind fun _ => .lift_bind fun _ => .modify _

theorem isAtomic_store : IsAtomic (store handle offset value) :=
  .get_bind fun _ => .lift_bind fun _ => .lift_bind fun _ => .modify _

end Blocks

namespace Slots

variable {α : Type} [Zero α] {handle offset : Int32} {size : Nat} {value : α}

theorem isAtomic_alloc : IsAtomic (alloc size : Action (Slots α) AllocError Int32) := by
  refine .get_bind fun t => ?_
  split
  · exact .throw _
  · exact IsAtomic.bind_pure nofun _

theorem isAtomic_realloc : IsAtomic (realloc handle size : Action (Slots α) AllocError Unit) := by
  refine .get_bind fun t => .lift_bind fun ⟨h, row⟩ => ?_
  dsimp only
  split
  · exact .throw _
  · exact .modify _

theorem isAtomic_store [DecidableEq α] : IsAtomic (store handle offset value) :=
  .get_bind fun _ => .lift_bind fun _ => .lift_bind fun _ => .modify _

end Slots

namespace Heap

variable {α : Type} {handle offset size value : Int32} {h h' : Heap} {e : AllocError}

theorem isAtomic_onTable {x : Action Blocks AllocError α} {y : Action (Slots Int32) AllocError α}
    (hx : IsAtomic x) (hy : IsAtomic y) : IsAtomic (onTable x y) := by
  intro h e h' hfail
  cases h with
  | blocks t =>
    obtain ⟨hresult, rfl⟩ := Prod.mk.inj hfail
    exact congrArg blocks (hx t e _ (Prod.ext hresult rfl))
  | slots t =>
    obtain ⟨hresult, rfl⟩ := Prod.mk.inj hfail
    exact congrArg slots (hy t e _ (Prod.ext hresult rfl))

theorem eq_of_alloc_rows_failed {t : Slots Int32}
    (hfail : alloc size (slots t) = (.error e, h')) : h' = slots t := by
  have hatomic : IsAtomic
      (do Slots.alloc (← Slots.size size) : Action (Slots Int32) AllocError Int32) :=
    .lift_bind fun _ => Slots.isAtomic_alloc
  obtain ⟨hresult, rfl⟩ := Prod.mk.inj hfail
  exact congrArg slots (hatomic t e _ (Prod.ext hresult rfl))

theorem eq_of_alloc_failed (hfail : alloc size h = (.error e, h')) (he : e ≠ .exhausted) :
    h' = h := by
  cases h with
  | blocks t =>
    obtain ⟨hresult, rfl⟩ := Prod.mk.inj hfail
    exact congrArg blocks (Blocks.eq_of_alloc_failed (Prod.ext hresult rfl) he)
  | slots t => exact eq_of_alloc_rows_failed hfail

theorem isAtomic_realloc : IsAtomic (realloc handle size) :=
  isAtomic_onTable Blocks.isAtomic_realloc (.lift_bind fun _ => Slots.isAtomic_realloc)

theorem isAtomic_free : IsAtomic (free handle) :=
  isAtomic_onTable HandleTable.isAtomic_free HandleTable.isAtomic_free

theorem isAtomic_store : IsAtomic (store handle offset value) :=
  isAtomic_onTable Blocks.isAtomic_store Slots.isAtomic_store

end Heap

namespace Variables

variable {name : Text} {value : Int32}

theorem isAtomic_declare : IsAtomic (declare name) := by
  refine .get_bind fun vars => ?_
  split
  · exact .throw _
  · exact .modify _

theorem isAtomic_set : IsAtomic (set name value) := by
  refine .get_bind fun vars => ?_
  split
  · exact .modify _
  · exact .throw _

end Variables

namespace NamedScopes

variable {s : NamedScopes} {scope name : Text} {vars : Variables} {value : Int32}

theorem find_eq_ok_iff : s.find scope = .ok vars ↔ s.lookup scope = some vars := by
  unfold find
  split <;> simp [*]

/-- Putting the variables of a scope in their own place changes nothing. -/
theorem replace_self (h : s.find scope = .ok vars) : replace scope vars s = s := by
  rw [find_eq_ok_iff] at h
  induction s with
  | nil => rfl
  | cons entry s ih =>
    obtain ⟨other, otherVars⟩ := entry
    by_cases heq : other = scope
    · subst heq
      obtain rfl : otherVars = vars := by simpa using h
      simp [replace]
    · have hne : (scope == other) = false := by simpa using Ne.symm heq
      rw [List.lookup_cons, hne] at h
      simp [replace, heq, ih h]

theorem isAtomic_inScope {x : Action Variables ScopeError Unit} (hx : IsAtomic x) :
    IsAtomic (inScope scope x) := by
  intro s e s' h
  rcases Action.lift_bind_eq_error_iff.1 h with ⟨-, rfl⟩ | ⟨vars, hvars, h⟩
  · rfl
  · obtain ⟨e, vars', hfail, -, rfl⟩ := Action.onPart_eq_error_iff.1 h
    rw [hx _ _ _ hfail]
    exact replace_self hvars

theorem isAtomic_create : IsAtomic (create scope) := by
  refine .get_bind fun s => ?_
  split
  · exact .throw _
  · exact .modify _

theorem isAtomic_destroy : IsAtomic (destroy scope) :=
  .get_bind fun _ => .lift_bind fun _ => .modify _

theorem isAtomic_declare : IsAtomic (declare scope name) :=
  isAtomic_inScope Variables.isAtomic_declare

theorem isAtomic_set : IsAtomic (set scope name value) :=
  isAtomic_inScope Variables.isAtomic_set

end NamedScopes

namespace StackScopes

variable {name : Text} {value : Int32}

theorem isAtomic_pop : IsAtomic pop := by
  refine .get_bind fun s => ?_
  split
  · exact .throw _
  · exact .modify _

theorem isAtomic_declare : IsAtomic (declare name) := by
  intro s e s' h
  cases s with
  | nil =>
    cases h
    rfl
  | cons frame outer =>
    rw [declare, Action.get_bind] at h
    obtain ⟨e, frame', hfail, -, rfl⟩ := Action.onPart_eq_error_iff.1 h
    rw [Variables.isAtomic_declare _ _ _ hfail]

theorem isAtomic_set : IsAtomic (set name value) := by
  refine .get_bind fun s => ?_
  split
  · exact .throw _
  · exact .modify _
  · exact .throw _

end StackScopes

namespace CallStack

theorem isAtomic_push {pc : Nat} : IsAtomic (push pc) := by
  refine .get_bind fun s => ?_
  split
  · exact .throw _
  · exact nofun

theorem isAtomic_pop : IsAtomic pop := by
  refine .get_bind fun s => ?_
  split
  · exact .throw _
  · exact IsAtomic.bind_pure nofun _

end CallStack

namespace Machine

variable {i : Instruction} {o : Operand} {address value : Int32}

theorem isAtomic_write : IsAtomic (write o value) := by
  unfold write
  split
  · split
    · exact .modify _
    · exact .throw _
  · split
    · exact .modify _
    · exact .throw _
  · exact .throw _

theorem isAtomic_storeWord : IsAtomic (storeWord address value) :=
  .get_bind fun _ => .lift_bind fun _ => .modify _

theorem isAtomic_move : IsAtomic (move i) :=
  .get_bind fun _ => .lift_bind fun _ => .lift_bind fun _ => .lift_bind fun _ => isAtomic_write

theorem isAtomic_load : IsAtomic (load i) :=
  .get_bind fun _ => .lift_bind fun _ => .lift_bind fun _ => .lift_bind fun _ =>
    .lift_bind fun _ => isAtomic_write

theorem isAtomic_store : IsAtomic (store i) :=
  .get_bind fun _ => .lift_bind fun _ => .lift_bind fun _ => .lift_bind fun _ =>
    .lift_bind fun _ => isAtomic_storeWord

theorem isAtomic_combine : IsAtomic (combine i) :=
  .get_bind fun _ => .lift_bind fun _ => .lift_bind fun _ => .lift_bind fun _ =>
    .lift_bind fun _ => .lift_bind fun _ => isAtomic_write

theorem isAtomic_compare : IsAtomic (compare i) :=
  .get_bind fun _ => .lift_bind fun _ => .lift_bind fun _ => .lift_bind fun _ =>
    .lift_bind fun _ => .modify _

theorem isAtomic_loadString : IsAtomic (loadString i) := by
  refine .lift_bind fun src => ?_
  split
  · exact .lift_bind fun _ => isAtomic_write
  · exact .throw _

theorem isAtomic_onCalls {α : Type} {x : Action CallStack Fault α} (hx : IsAtomic x) :
    IsAtomic (onCalls x) :=
  hx.onPart (fun _ => rfl) id

theorem isAtomic_jump : IsAtomic (jump i) :=
  .get_bind fun _ => .lift_bind fun _ => .pure _

/-- The target is checked before the call is put on the stack. -/
theorem isAtomic_enter : IsAtomic (enter i) :=
  .get_bind fun _ => .lift_bind fun _ => (isAtomic_onCalls CallStack.isAtomic_push).bind_pure _

theorem isAtomic_leave : IsAtomic leave :=
  (isAtomic_onCalls CallStack.isAtomic_pop).bind_pure _

theorem isAtomic_perform : IsAtomic (perform i) := by
  have next {x : Action Machine Fault Unit} (hx : IsAtomic x) : IsAtomic (andNext x) :=
    hx.bind_pure _
  unfold perform
  split
  · exact next isAtomic_move
  · exact next isAtomic_load
  · exact next isAtomic_store
  · exact next isAtomic_compare
  · exact next isAtomic_loadString
  · exact isAtomic_jump
  · exact isAtomic_jump
  · exact isAtomic_jump
  · exact isAtomic_jump
  · exact isAtomic_jump
  · exact isAtomic_enter
  · exact isAtomic_leave
  · exact next isAtomic_combine

end Machine

end RegisterMachine
