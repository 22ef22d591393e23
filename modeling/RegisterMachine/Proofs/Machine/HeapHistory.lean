import Mathlib.Data.List.Induction
import RegisterMachine.Proofs.Machine.Atomicity
import RegisterMachine.Proofs.Machine.HeapTable

/-!
# Histories of a heap

A history is the list of the calls that programs have made of a heap, the failed ones included.
What it says about handles is a list of events, each a handle given out or released
(`Heap.events`). `HandleTable.Turn` says once what a call can do to the table of the heap, and
`HandleTable.Records` what the table has in common with the events of its history.
-/

namespace RegisterMachine

/-- What a program asks of the heap. -/
inductive HeapCall where
  | alloc (size : Int32)
  | realloc (handle size : Int32)
  | free (handle : Int32)
  | size (handle : Int32)
  | load (handle offset : Int32)
  | store (handle offset value : Int32)
  deriving DecidableEq, Repr

/-- What happens to a handle. -/
inductive HeapEvent where
  | grant (handle : Int32)
  | release (handle : Int32)
  deriving DecidableEq, Repr

/-- What a call with the given answer means for a handle. -/
def HeapCall.event? : HeapCall → Except AllocError (Option Int32) → Option HeapEvent
  | .alloc _, .ok (some x) => some (.grant x)
  | .free x, .ok _ => some (.release x)
  | _, _ => none

theorem Discipline.handleLimit_le (d : Discipline) : d.handleLimit ≤ 0x80000000 := by
  cases d <;> decide

/-- Handles with different numbers differ. -/
theorem Discipline.eq_of_ofNat_eq (d : Discipline) {i j : Nat} (hi : i < d.handleLimit)
    (hj : j < d.handleLimit) (h : Int32.ofNat i = Int32.ofNat j) : i = j := by
  have hindex {k : Nat} (hk : k < d.handleLimit) : Word.index? (Int32.ofNat k) = some k :=
    Word.index?_eq_some_iff.2 ⟨Nat.lt_of_lt_of_le hk d.handleLimit_le, rfl⟩
  exact Option.some.inj ((hindex hi).symm.trans ((congrArg Word.index? h).trans (hindex hj)))

section Grant

variable {d : Discipline} {t t' : HandleTable (List Int32)} {us : List Int32} {x : Int32}
  {e : AllocError}

theorem Discipline.of_grant_eq_ok (hx : d.grant us t = (.ok x, t')) :
    (t.released = [] → t.entries.size < d.handleLimit) ∧
      x = Int32.ofNat (t.insert us).1 ∧ t' = (t.insert us).2 := by
  cases d with
  | blocks =>
    simp only [grant, Prod.mk.injEq] at hx
    obtain ⟨hresult, ht⟩ := hx
    split at hresult
    · rename_i hlt
      rw [HandleTable.fst_insert] at hlt
      refine ⟨fun hfree => ?_, (Except.ok.inj hresult).symm, ht.symm⟩
      rw [hfree] at hlt
      exact hlt
    · cases hresult
  | slots =>
    simp only [grant] at hx
    split at hx
    · cases hx
    · rename_i hroom
      obtain ⟨hresult, ht⟩ := Prod.mk.inj hx
      refine ⟨fun hfree => ?_, (Except.ok.inj hresult).symm, ht.symm⟩
      exact Nat.not_le.1 fun hle => hroom ⟨hfree, hle⟩

/-- A block is made before its handle turns out to be no word. -/
theorem Discipline.of_grant_eq_error (hx : d.grant us t = (.error e, t')) :
    d = .slots ∧ t' = t ∧ t.released = [] ∧ d.handleLimit ≤ t.entries.size ∨
      d = .blocks ∧ t' = (t.insert us).2 ∧ 0x80000000 ≤ (t.insert us).1 := by
  cases d with
  | blocks =>
    simp only [grant, Prod.mk.injEq] at hx
    obtain ⟨hresult, ht⟩ := hx
    split at hresult
    · cases hresult
    · rename_i hlimit
      exact .inr ⟨rfl, ht.symm, Nat.not_lt.1 hlimit⟩
  | slots =>
    simp only [grant] at hx
    split at hx
    · rename_i hused
      exact .inl ⟨rfl, (congrArg Prod.snd hx).symm, hused⟩
    · cases hx

theorem Discipline.grant_of_headD_lt (hlimit : t.released.headD t.entries.size < d.handleLimit) :
    d.grant us t = (.ok (Int32.ofNat (t.released.headD t.entries.size)), (t.insert us).2) := by
  cases d with
  | blocks =>
    have hroom : t.released.headD t.entries.size < Blocks.handleLimit := hlimit
    simp only [grant, HandleTable.fst_insert, if_pos hroom]
  | slots =>
    have hroom : ¬ (t.released = [] ∧ Slots.handleLimit ≤ t.entries.size) := by
      rintro ⟨hfree, hle⟩
      rw [hfree] at hlimit
      exact Nat.not_lt.2 hle hlimit
    simp only [grant, HandleTable.fst_insert, if_neg hroom]

end Grant

section Exhaustion

variable {t : HandleTable (List Int32)} {d : Discipline} {handle offset size value : Int32}

theorem HandleTable.failsWith_find : FailsWith (· ≠ .exhausted) (t.find handle) := by
  intro e he
  rw [eq_of_find_eq_error he]
  nofun

theorem Discipline.failsWith_size : FailsWith (· ≠ .exhausted) (d.size size) := by
  cases d with
  | blocks =>
    simp only [Discipline.size, Blocks.size]
    split
    · exact .ok _
    · exact .error (by simp)
  | slots =>
    simp only [Discipline.size, Slots.size]
    split
    · exact .ok _
    · exact .error (by simp)

theorem Discipline.failsWith_place {length : Nat} :
    FailsWith (· ≠ .exhausted) (d.place length handle offset) := by
  unfold place
  split
  · exact .ok _
  · exact .error (by simp)

theorem Discipline.failsWith_store :
    FailsWith (· ≠ .exhausted) (d.store handle offset value t).1 :=
  HandleTable.failsWith_find.lift_bind fun _ => failsWith_place.lift_bind fun _ => .ok _

end Exhaustion

/-- Released handles, given from the first released one on, in the order in which the discipline
gives them out again. -/
def Discipline.inOrder : Discipline → List Int32 → List Int32
  | blocks, handles => handles
  | slots, handles => handles.reverse

namespace Discipline

variable (d : Discipline) {x : Int32} {xs handles : List Int32}

theorem eq_nil_of_inOrder (h : [] = d.inOrder handles) : handles = [] := by
  cases d with
  | blocks => exact h.symm
  | slots => exact List.reverse_eq_nil_iff.1 h.symm

/-- The handle that is given out next can be taken away at either end. -/
theorem inOrder_erase (hnodup : (x :: xs).Nodup) (h : x :: xs = d.inOrder handles) :
    xs = d.inOrder (handles.erase x) := by
  cases d with
  | blocks =>
    obtain rfl : x :: xs = handles := h
    rw [List.erase_cons_head]
    rfl
  | slots =>
    obtain rfl : handles = xs.reverse ++ [x] := by
      rw [← List.reverse_cons, h]
      exact (List.reverse_reverse handles).symm
    have hx : x ∉ xs.reverse := by simpa using (List.nodup_cons.1 hnodup).1
    rw [List.erase_append_right _ hx]
    simp [inOrder]

end Discipline

namespace HeapEvent

/-- The handles that were ever given out. -/
def granted (events : List HeapEvent) : List Int32 :=
  events.filterMap fun
    | .grant x => some x
    | .release _ => none

/-- The handles that were released and not given out again, the first released one first. -/
def waiting (events : List HeapEvent) : List Int32 :=
  events.foldl
    (fun handles e =>
      match e with
      | .grant x => handles.erase x
      | .release x => handles ++ [x])
    []

variable {es : List HeapEvent} {x handle : Int32}

theorem granted_append {es' : List HeapEvent} : granted (es ++ es') = granted es ++ granted es' :=
  List.filterMap_append

theorem mem_granted_grant :
    handle ∈ granted (es ++ [.grant x]) ↔ handle ∈ granted es ∨ handle = x := by
  simp [granted]

theorem mem_granted_release : handle ∈ granted (es ++ [.release x]) ↔ handle ∈ granted es := by
  simp [granted]

theorem waiting_grant : waiting (es ++ [.grant x]) = (waiting es).erase x := by
  simp [waiting]

theorem waiting_release : waiting (es ++ [.release x]) = waiting es ++ [x] := by
  simp [waiting]

end HeapEvent

namespace Heap

/-- The answer to a call, a word or nothing. -/
def answer : HeapCall → Action Heap AllocError (Option Int32)
  | .alloc size => do
    let handle ← alloc size
    return some handle
  | .realloc handle size => do
    realloc handle size
    return none
  | .free handle => do
    free handle
    return none
  | .size handle => do
    let size ← (← get).size handle
    return some size
  | .load handle offset => do
    let value ← (← get).load handle offset
    return some value
  | .store handle offset value => do
    store handle offset value
    return none

/-- The heap behind a call. -/
def after (h : Heap) (c : HeapCall) : Heap :=
  (answer c h).2

/-- The heap behind all calls of a history. -/
def run (h : Heap) (calls : List HeapCall) : Heap :=
  calls.foldl after h

def event? (h : Heap) (c : HeapCall) : Option HeapEvent :=
  c.event? (answer c h).1

/-- What happens to handles in a history. -/
def events (h : Heap) : List HeapCall → List HeapEvent
  | [] => []
  | c :: calls => (h.event? c).toList ++ (h.after c).events calls

/-- Whether a handle has an allocation. -/
def isLive (h : Heap) (handle : Int32) : Bool :=
  (h.size handle).toBool

/-- The released handles, the one to give out next first. -/
def freeList : Heap → List Int32
  | blocks t => t.released.map Int32.ofNat
  | slots t => t.released.map Int32.ofNat

variable {h : Heap} {c : HeapCall} {calls later : List HeapCall} {handle : Int32}

@[simp] theorem run_nil : h.run [] = h := rfl

theorem run_append : h.run (calls ++ later) = (h.run calls).run later :=
  List.foldl_append

theorem events_append :
    h.events (calls ++ later) = h.events calls ++ (h.run calls).events later := by
  induction calls generalizing h with
  | nil => rfl
  | cons c calls ih => simp [events, ih, run]

theorem events_concat :
    h.events (calls ++ [c]) = h.events calls ++ ((h.run calls).event? c).toList := by
  simp [events_append, events]

theorem freeList_eq (h : Heap) : h.freeList = h.table.released.map Int32.ofNat := by
  cases h <;> rfl

theorem isLive_iff : h.isLive handle ↔ ∃ i us, h.table.find handle = .ok (i, us) := by
  rw [isLive, size_eq]
  cases hf : h.table.find handle with
  | error e => simp [Except.map, Except.toBool]
  | ok r => exact ⟨fun _ => ⟨r.1, r.2, rfl⟩, fun _ => rfl⟩

theorem table_empty (d : Discipline) : (empty d).table = {} := by
  cases d <;> simp [empty, table, HandleTable.map]

@[simp] theorem discipline_empty (d : Discipline) : (empty d).discipline = d := by
  cases d <;> rfl

end Heap

namespace HandleTable

variable {β : Type} {d : Discipline} {t t' : HandleTable β} {e : Option HeapEvent}
  {es : List HeapEvent} {i : Nat} {x : β}

/-- What a call does to a table of handles, and what it means for a handle. Only a call for which
the handles are `used` up makes an entry whose number is no word. -/
inductive Turn (d : Discipline) (used : Prop) (t : HandleTable β) :
    Option HeapEvent → HandleTable β → Prop
  | same : Turn d used t none t
  | change {i : Nat} {x : β} (y : β) (hx : t.get? i = some x) : Turn d used t none (t.set i y)
  | grant (x : β) (hlimit : t.released = [] → t.entries.size < d.handleLimit) :
    Turn d used t (some (.grant (Int32.ofNat (t.insert x).1))) (t.insert x).2
  | overflow (x : β) (hused : used) (hlimit : 0x80000000 ≤ (t.insert x).1) :
    Turn d used t none (t.insert x).2
  | release {i : Nat} {x : β} (hi : i < 0x80000000) (hx : t.get? i = some x) :
    Turn d used t (some (.release (Int32.ofNat i))) (t.release d.order i)

variable {used : Prop}

theorem Turn.isKept (h : t.Turn d used e t') (hk : t.IsKept) : t'.IsKept := by
  cases h with
  | same => exact hk
  | change y hx => exact hk.set hx
  | grant x => exact hk.insert
  | overflow x => exact hk.insert
  | release _ hx => exact hk.release hx

theorem Turn.size_le (h : t.Turn d used e t') : t.entries.size ≤ t'.entries.size := by
  have hinsert (x : β) : t.entries.size ≤ (t.insert x).2.entries.size := by
    rw [size_insert]
    split <;> omega
  cases h with
  | same => exact Nat.le_refl _
  | change y hx => exact Nat.le_of_eq Array.size_setIfInBounds.symm
  | grant x => exact hinsert x
  | overflow x => exact hinsert x
  | release _ hx => exact Nat.le_of_eq Array.size_setIfInBounds.symm

/-- Where the handles are not used up, all entries have numbers below the limit. -/
theorem Turn.size_le_handleLimit (h : t.Turn d used e t') (hused : ¬ used)
    (hsize : t.entries.size ≤ d.handleLimit) : t'.entries.size ≤ d.handleLimit := by
  cases h with
  | same => exact hsize
  | change y hx => exact Nat.le_trans (Nat.le_of_eq Array.size_setIfInBounds) hsize
  | grant x hlimit =>
    rw [size_insert]
    split
    · exact hlimit ‹_›
    · exact hsize
  | overflow x h => exact absurd h hused
  | release _ hx => exact Nat.le_trans (Nat.le_of_eq Array.size_setIfInBounds) hsize

/-- A handle is made only if no other one is free, and then none is. -/
theorem Turn.size_eq_or (h : t.Turn d used e t') :
    t'.entries.size = t.entries.size ∨ t'.released = [] := by
  have hinsert (x : β) : (t.insert x).2.entries.size = t.entries.size ∨
      (t.insert x).2.released = [] := by
    rw [size_insert, released_insert]
    split
    · rename_i hfree
      exact .inr (by rw [hfree]; rfl)
    · exact .inl rfl
  cases h with
  | same => exact .inl rfl
  | change y hx => exact .inl Array.size_setIfInBounds
  | grant x => exact hinsert x
  | overflow x => exact hinsert x
  | release _ hx => exact .inl Array.size_setIfInBounds

/-- Only giving a handle out makes it live. -/
theorem Turn.get?_eq_none (h : t.Turn d used e t') (hk : t.IsKept) (hi : t.get? i = none)
    (hword : i < 0x80000000) (he : e ≠ some (.grant (Int32.ofNat i))) : t'.get? i = none := by
  cases h with
  | same => exact hi
  | @change j x y hx =>
    rw [get?_set hx, if_neg, hi]
    rintro rfl
    rw [hx] at hi
    cases hi
  | grant x =>
    rw [hk.get?_insert, if_neg, hi]
    rintro rfl
    exact he rfl
  | overflow x _ hlimit => rw [hk.get?_insert, if_neg (by omega), hi]
  | @release j x _ hx =>
    rw [get?_release hx, hi, ite_self]

/-- The table has the handles that the events say. -/
structure Records (d : Discipline) (t : HandleTable β) (es : List HeapEvent) : Prop where
  isKept : t.IsKept
  lt_handleLimit : ∀ i < t.entries.size, i < 0x80000000 → i < d.handleLimit
  released_lt : ∀ i ∈ t.released, i < 0x80000000
  granted : ∀ handle, handle ∈ HeapEvent.granted es ↔
    ∃ i < t.entries.size, i < 0x80000000 ∧ handle = Int32.ofNat i
  released : t.released.map Int32.ofNat = d.inOrder (HeapEvent.waiting es)

theorem records_empty (d : Discipline) : Records d ({} : HandleTable β) [] :=
  ⟨isKept_empty, by simp, by simp, by simp [HeapEvent.granted], by cases d <;> rfl⟩

theorem Records.released_lt_handleLimit (hr : Records d t es) (hi : i ∈ t.released) :
    i < d.handleLimit :=
  hr.lt_handleLimit i (hr.isKept.lt_size hi) (hr.released_lt i hi)

/-- The next handle is below the limit, unless a new one is needed and all are given out. -/
theorem Records.headD_lt (hr : Records d t es)
    (h : t.released = [] → t.entries.size < d.handleLimit) :
    t.released.headD t.entries.size < d.handleLimit := by
  cases hreleased : t.released with
  | nil => exact h hreleased
  | cons i rest =>
    exact hr.released_lt_handleLimit (by rw [hreleased]; exact List.mem_cons_self)

/-- Where the next handle is none, all are given out. -/
theorem Records.used_up (hr : Records d t es) (h : 0x80000000 ≤ (t.insert x).1) :
    t.released = [] ∧ 0x80000000 ≤ t.entries.size := by
  rw [fst_insert] at h
  cases hreleased : t.released with
  | nil =>
    rw [hreleased] at h
    exact ⟨rfl, h⟩
  | cons i rest =>
    have hi := hr.released_lt i (by rw [hreleased]; exact List.mem_cons_self)
    rw [hreleased, List.headD_cons] at h
    omega

theorem Records.nodup_released (hr : Records d t es) : (t.released.map Int32.ofNat).Nodup := by
  refine hr.isKept.nodup.map_on fun i hi j hj hij => ?_
  exact d.eq_of_ofNat_eq (hr.released_lt_handleLimit hi) (hr.released_lt_handleLimit hj) hij

theorem Records.grant (hr : Records d t es)
    (hlimit : t.released = [] → t.entries.size < d.handleLimit) :
    Records d (t.insert x).2 (es ++ [.grant (Int32.ofNat (t.insert x).1)]) := by
  have hword := d.handleLimit_le
  refine ⟨hr.isKept.insert, fun i hi hlt => ?_, fun i hi => ?_, fun handle => ?_, ?_⟩
  · rw [size_insert] at hi
    split at hi
    · rcases Nat.lt_succ_iff_lt_or_eq.1 hi with hi | rfl
      · exact hr.lt_handleLimit i hi hlt
      · exact hlimit ‹_›
    · exact hr.lt_handleLimit i hi hlt
  · rw [released_insert] at hi
    exact hr.released_lt i (List.mem_of_mem_tail hi)
  · rw [HeapEvent.mem_granted_grant, hr.granted, fst_insert, size_insert]
    cases hfree : t.released with
    | nil =>
      have hlt := hlimit hfree
      rw [List.headD_nil, if_pos rfl]
      constructor
      · rintro (⟨i, hi, hi', rfl⟩ | rfl)
        · exact ⟨i, Nat.lt_succ_of_lt hi, hi', rfl⟩
        · exact ⟨_, Nat.lt_succ_self _, by omega, rfl⟩
      · rintro ⟨i, hi, hi', rfl⟩
        rcases Nat.lt_succ_iff_lt_or_eq.1 hi with hi | rfl
        · exact .inl ⟨i, hi, hi', rfl⟩
        · exact .inr rfl
    | cons i rest =>
      have hmem : i ∈ t.released := hfree ▸ List.mem_cons_self
      simp only [List.headD_cons, reduceCtorEq, if_false, or_iff_left_iff_imp]
      exact fun heq => ⟨i, hr.isKept.lt_size hmem, hr.released_lt i hmem, heq⟩
  · rw [released_insert, HeapEvent.waiting_grant, fst_insert]
    have hreleased := hr.released
    have hnodup := hr.nodup_released
    cases hfree : t.released with
    | nil =>
      rw [hfree, List.map_nil] at hreleased
      rw [d.eq_nil_of_inOrder hreleased]
      cases d <;> rfl
    | cons i rest =>
      rw [hfree, List.map_cons] at hreleased hnodup
      exact d.inOrder_erase hnodup hreleased

/-- An entry whose number is no word makes no difference to the handles. -/
theorem Records.overflow (hr : Records d t es) (hlimit : 0x80000000 ≤ (t.insert x).1) :
    Records d (t.insert x).2 es := by
  obtain ⟨hfree, hsize⟩ := hr.used_up hlimit
  have hnew : (t.insert x).2.entries.size = t.entries.size + 1 := by
    rw [size_insert, if_pos hfree]
  have hreleased : (t.insert x).2.released = t.released := by
    rw [released_insert, hfree]
    rfl
  refine ⟨hr.isKept.insert, fun i _ hlt => ?_, ?_, fun handle => ?_, ?_⟩
  · exact hr.lt_handleLimit i (by omega) hlt
  · rw [hreleased]
    exact hr.released_lt
  · rw [hr.granted, hnew]
    refine exists_congr fun i => and_congr_left fun h => ?_
    omega
  · rw [hreleased]
    exact hr.released

theorem Records.release (hr : Records d t es) (hi : i < 0x80000000) (hx : t.get? i = some x) :
    Records d (t.release d.order i) (es ++ [.release (Int32.ofNat i)]) := by
  have hsize : (t.release d.order i).entries.size = t.entries.size := Array.size_setIfInBounds
  refine ⟨hr.isKept.release hx, hsize ▸ hr.lt_handleLimit, fun j hj => ?_, fun handle => ?_, ?_⟩
  · rcases mem_released_release.1 hj with rfl | hj
    · exact hi
    · exact hr.released_lt j hj
  · rw [HeapEvent.mem_granted_release, hsize]
    exact hr.granted handle
  · rw [HeapEvent.waiting_release]
    have hreleased := hr.released
    cases d with
    | blocks => simpa [HandleTable.release, Discipline.order, Discipline.inOrder] using hreleased
    | slots => simpa [HandleTable.release, Discipline.order, Discipline.inOrder] using hreleased

theorem Records.turn (hr : Records d t es) (h : t.Turn d used e t') :
    Records d t' (es ++ e.toList) := by
  cases h with
  | same => simpa using hr
  | change y hx =>
    have hsize {i : Nat} {y : β} : (t.set i y).entries.size = t.entries.size :=
      Array.size_setIfInBounds
    rw [Option.toList_none, List.append_nil]
    exact ⟨hr.isKept.set hx, hsize ▸ hr.lt_handleLimit, hr.released_lt,
      fun handle => hsize ▸ hr.granted handle, hr.released⟩
  | grant x hlimit => exact hr.grant hlimit
  | overflow x _ hlimit =>
    rw [Option.toList_none, List.append_nil]
    exact hr.overflow hlimit
  | release hi hx => exact hr.release hi hx

end HandleTable

namespace Heap

variable {h h' : Heap} {c : HeapCall} {handle size offset value x : Int32} {e : AllocError}

theorem table_of_eq {α : Type} {x : Action Heap AllocError α}
    {y : Action (HandleTable (List Int32)) AllocError α} {result : Except AllocError α}
    (htable : Prod.map id table (x h) = y h.table) (hx : x h = (result, h')) :
    y h.table = (result, h'.table) := by
  rw [← htable, hx]
  rfl

theorem exists_of_table {α : Type} {x : Action Heap AllocError α}
    {y : Action (HandleTable (List Int32)) AllocError α} {result : Except AllocError α}
    {t : HandleTable (List Int32)} (htable : Prod.map id table (x h) = y h.table)
    (hy : y h.table = (result, t)) : ∃ h', x h = (result, h') ∧ h'.table = t := by
  rw [hy] at htable
  obtain ⟨hresult, ht⟩ := Prod.mk.inj htable
  exact ⟨(x h).2, Prod.ext hresult rfl, ht⟩

theorem eq_error_of_table {α : Type} {x : Action Heap AllocError α}
    {y : Action (HandleTable (List Int32)) AllocError α} (hx : x.IsAtomic)
    (htable : Prod.map id table (x h) = y h.table) (hy : (y h.table).1 = .error e) :
    x h = (.error e, h) := by
  have hfail : x h = (.error e, (x h).2) := Prod.ext ((congrArg Prod.fst htable).trans hy) rfl
  rw [hfail, hx _ _ _ hfail]

theorem exists_of_alloc (hx : alloc size h = (.ok x, h')) :
    ∃ n, h.discipline.size size = .ok n ∧
      (h.table.released = [] → h.table.entries.size < h.discipline.handleLimit) ∧
      x = Int32.ofNat (h.table.insert (List.replicate n 0)).1 ∧
      h'.table = (h.table.insert (List.replicate n 0)).2 := by
  obtain ⟨n, hn, hgrant⟩ := Action.lift_bind_eq_ok_iff.1 (table_of_eq (table_alloc h size) hx)
  exact ⟨n, hn, Discipline.of_grant_eq_ok hgrant⟩

/-- A size of the discipline is allocated, unless the handles are used up. -/
theorem exists_alloc (h : Heap) {n : Nat} (hn : h.discipline.size size = .ok n)
    (hlimit : h.table.released.headD h.table.entries.size < h.discipline.handleLimit) :
    ∃ h', alloc size h =
      (.ok (Int32.ofNat (h.table.released.headD h.table.entries.size)), h') := by
  have hgrant : h.discipline.grant (List.replicate n 0) h.table = _ :=
    Discipline.grant_of_headD_lt hlimit
  have htable : h.discipline.alloc size h.table = _ :=
    Action.lift_bind_eq_ok_iff.2 ⟨n, hn, hgrant⟩
  obtain ⟨h', hx, -⟩ := exists_of_table (table_alloc h size) htable
  exact ⟨h', hx⟩

/-- No handle is left for an allocation where none is free and as many as there can be are made. -/
theorem exists_of_alloc_exhausted (hx : alloc size h = (.error .exhausted, h')) :
    ∃ us, h.discipline = .slots ∧ h'.table = h.table ∧ h.table.released = [] ∧
        h.discipline.handleLimit ≤ h.table.entries.size ∨
      h.discipline = .blocks ∧ h'.table = (h.table.insert us).2 ∧
        0x80000000 ≤ (h.table.insert us).1 := by
  rcases Action.lift_bind_eq_error_iff.1 (table_of_eq (table_alloc h size) hx) with
    ⟨hsize, -⟩ | ⟨n, hn, hgrant⟩
  · exact absurd rfl (Discipline.failsWith_size _ hsize)
  · exact ⟨_, Discipline.of_grant_eq_error hgrant⟩

theorem exists_of_realloc (hx : realloc handle size h = (.ok (), h')) :
    ∃ n i us, h.discipline.size size = .ok n ∧ h.table.find handle = .ok (i, us) ∧
      (h.discipline = .slots → us.length ≤ n) ∧
      h'.table = h.table.set i (us.take n ++ List.replicate (n - us.length) 0) := by
  have htable := table_of_eq (table_realloc h handle size) hx
  obtain ⟨n, hn, htable⟩ := Action.lift_bind_eq_ok_iff.1 htable
  rw [Action.get_bind] at htable
  obtain ⟨⟨i, us⟩, hf, htable⟩ := Action.lift_bind_eq_ok_iff.1 htable
  refine ⟨n, i, us, hn, hf, ?_⟩
  dsimp only at htable
  split at htable
  · cases htable
  · rename_i hshrink
    refine ⟨fun hd => ?_, (congrArg Prod.snd htable).symm⟩
    exact Nat.not_lt.1 fun hlt => hshrink ⟨hd, hlt⟩

theorem exists_of_free (hx : free handle h = (.ok (), h')) :
    ∃ i us, h.table.find handle = .ok (i, us) ∧
      h'.table = h.table.release h.discipline.order i := by
  have htable := table_of_eq (table_free h handle) hx
  rw [Discipline.free, HandleTable.free, Action.get_bind] at htable
  obtain ⟨⟨i, us⟩, hf, htable⟩ := Action.lift_bind_eq_ok_iff.1 htable
  exact ⟨i, us, hf, (congrArg Prod.snd htable).symm⟩

theorem exists_of_store (hx : store handle offset value h = (.ok (), h')) :
    ∃ i us j, h.table.find handle = .ok (i, us) ∧
      h.discipline.place us.length handle offset = .ok j ∧
      h'.table = h.table.set i
        (us.take j ++ h.discipline.units value ++ us.drop (j + h.discipline.wordSize)) := by
  have htable := table_of_eq (table_store h handle offset value) hx
  rw [Discipline.store, Action.get_bind] at htable
  obtain ⟨⟨i, us⟩, hf, htable⟩ := Action.lift_bind_eq_ok_iff.1 htable
  obtain ⟨j, hj, htable⟩ := Action.lift_bind_eq_ok_iff.1 htable
  exact ⟨i, us, j, hf, hj, (congrArg Prod.snd htable).symm⟩

theorem answer_alloc :
    answer (.alloc size) h = ((alloc size h).1.map some, (alloc size h).2) :=
  Action.bind_pure_apply _ _

theorem answer_realloc : answer (.realloc handle size) h =
    ((realloc handle size h).1.map fun _ => none, (realloc handle size h).2) :=
  Action.bind_pure_apply _ _

theorem answer_free :
    answer (.free handle) h = ((free handle h).1.map fun _ => none, (free handle h).2) :=
  Action.bind_pure_apply _ _

theorem answer_store : answer (.store handle offset value) h =
    ((store handle offset value h).1.map fun _ => none, (store handle offset value h).2) :=
  Action.bind_pure_apply _ _

theorem answer_size : answer (.size handle) h = ((h.size handle).map some, h) :=
  Action.bind_pure_apply _ _

theorem answer_load :
    answer (.load handle offset) h = ((h.load handle offset).map some, h) :=
  Action.bind_pure_apply _ _

theorem discipline_after : (h.after c).discipline = h.discipline := by
  cases c with
  | alloc size =>
    rw [after, answer_alloc]
    exact discipline_onTable _ _ h
  | realloc handle size =>
    rw [after, answer_realloc]
    exact discipline_onTable _ _ h
  | free handle =>
    rw [after, answer_free]
    exact discipline_onTable _ _ h
  | store handle offset value =>
    rw [after, answer_store]
    exact discipline_onTable _ _ h
  | size handle =>
    rw [after, answer_size]
  | load handle offset =>
    rw [after, answer_load]

theorem failsWith_load : FailsWith (· ≠ .exhausted) (h.load handle offset) := by
  rw [load_eq]
  exact HandleTable.failsWith_find.bind fun _ => Discipline.failsWith_place.bind fun _ => .ok _

theorem turn_after_alloc (h : Heap) (size : Int32) : h.table.Turn h.discipline
    (h.discipline = .blocks ∧ (answer (.alloc size) h).1 = .error .exhausted)
    (h.event? (.alloc size)) (h.after (.alloc size)).table := by
  rw [event?, after, answer_alloc]
  cases hx : alloc size h with
  | mk result h' =>
    cases result with
    | ok x =>
      obtain ⟨n, -, hlimit, rfl, htable⟩ := exists_of_alloc hx
      dsimp only
      rw [htable]
      exact .grant _ hlimit
    | error e =>
      by_cases he : e = .exhausted
      · subst he
        obtain ⟨us, ⟨-, htable, -⟩ | ⟨hblocks, htable, hlimit⟩⟩ := exists_of_alloc_exhausted hx
        · dsimp only
          rw [htable]
          exact .same
        · dsimp only
          rw [htable]
          exact .overflow _ ⟨hblocks, rfl⟩ hlimit
      · obtain rfl := eq_of_alloc_failed hx he
        exact .same

/-- What a call does. -/
theorem turn_after (h : Heap) (c : HeapCall) :
    h.table.Turn h.discipline (h.discipline = .blocks ∧ (answer c h).1 = .error .exhausted)
      (h.event? c) (h.after c).table := by
  cases c with
  | alloc size => exact turn_after_alloc h size
  | realloc handle size =>
    rw [event?, after, answer_realloc]
    cases hx : realloc handle size h with
    | mk result h' =>
      cases result with
      | ok =>
        obtain ⟨n, i, us, -, hf, -, htable⟩ := exists_of_realloc hx
        dsimp only
        rw [htable]
        exact .change _ (HandleTable.find_eq_ok_iff.1 hf).2
      | error e =>
        obtain rfl := isAtomic_realloc _ _ _ hx
        exact .same
  | free handle =>
    rw [event?, after, answer_free]
    cases hx : free handle h with
    | mk result h' =>
      cases result with
      | ok =>
        obtain ⟨i, us, hf, htable⟩ := exists_of_free hx
        obtain ⟨hi, hus⟩ := HandleTable.find_eq_ok_iff.1 hf
        obtain ⟨hlt, rfl⟩ := Word.index?_eq_some_iff.1 hi
        dsimp only
        rw [htable]
        exact .release hlt hus
      | error e =>
        obtain rfl := isAtomic_free _ _ _ hx
        exact .same
  | store handle offset value =>
    rw [event?, after, answer_store]
    cases hx : store handle offset value h with
    | mk result h' =>
      cases result with
      | ok =>
        obtain ⟨i, us, j, hf, -, htable⟩ := exists_of_store hx
        dsimp only
        rw [htable]
        exact .change _ (HandleTable.find_eq_ok_iff.1 hf).2
      | error e =>
        obtain rfl := isAtomic_store _ _ _ hx
        exact .same
  | size handle =>
    rw [event?, after, answer_size]
    exact .same
  | load handle offset =>
    rw [event?, after, answer_load]
    exact .same

theorem discipline_run (h : Heap) (calls : List HeapCall) :
    (h.run calls).discipline = h.discipline := by
  induction calls generalizing h with
  | nil => rfl
  | cons c calls ih => exact (ih _).trans discipline_after

end Heap

namespace Discipline

variable (d : Discipline) {calls later : List HeapCall}

/-- The heap behind a history from the start. -/
def heap (calls : List HeapCall) : Heap :=
  (Heap.empty d).run calls

/-- What happens to handles in a history from the start. -/
def events (calls : List HeapCall) : List HeapEvent :=
  (Heap.empty d).events calls

theorem heap_nil : d.heap [] = Heap.empty d := rfl

theorem heap_append : d.heap (calls ++ later) = (d.heap calls).run later :=
  Heap.run_append

@[simp] theorem discipline_heap (calls : List HeapCall) : (d.heap calls).discipline = d := by
  rw [heap, Heap.discipline_run, Heap.discipline_empty]

theorem records_heap (calls : List HeapCall) :
    HandleTable.Records d (d.heap calls).table (d.events calls) := by
  induction calls using List.reverseRecOn with
  | nil =>
    rw [heap_nil, Heap.table_empty]
    exact HandleTable.records_empty d
  | append_singleton calls c ih =>
    have hturn := Heap.turn_after (d.heap calls) c
    have hevents : d.events (calls ++ [c]) = d.events calls ++ ((d.heap calls).event? c).toList :=
      Heap.events_concat
    rw [discipline_heap] at hturn
    rw [heap_append, hevents]
    exact ih.turn hturn

end Discipline

end RegisterMachine
