import Mathlib.Order.Bounds.Defs
import RegisterMachine.Proofs.Machine.HeapHistory

/-!
# Handles over a history

Whatever is asked of a heap from the start, the handles ever given out are the first few numbers,
each of them is live or waits to be given out again, and there are as many of them as allocations
were live at once at some time (`Heap.keepsHandles_of_history`); only blocks that are made where no
handle is left are counted without one. A handle that is not live is unknown to every operation, and
stays so until it is given out again.
-/

namespace RegisterMachine

namespace Heap

/-- No operation knows the handle. Sizes are looked at before handles, so a new size has to be a
size of the discipline. -/
structure Refuses (h : Heap) (handle : Int32) : Prop where
  realloc : ∀ size n, h.discipline.size size = .ok n →
    Heap.realloc handle size h = (.error (.unknownHandle handle), h)
  free : Heap.free handle h = (.error (.unknownHandle handle), h)
  size : h.size handle = .error (.unknownHandle handle)
  load : ∀ offset, h.load handle offset = .error (.unknownHandle handle)
  store : ∀ offset value, Heap.store handle offset value h = (.error (.unknownHandle handle), h)

/-- No block was made without a handle: if the history is one of blocks, no call was refused
because the handles were used up. -/
def HasHandles (d : Discipline) (calls : List HeapCall) : Prop :=
  ∀ earlier c, earlier ++ [c] <+: calls →
    ¬ (d = .blocks ∧ (answer c (d.heap earlier)).1 = .error .exhausted)

/-- A heap with the history `calls` accounts for the `k` handles that it has ever given out. -/
structure KeepsHandles (d : Discipline) (calls : List HeapCall) (k : Nat) : Prop where
  le_handleLimit : k ≤ d.handleLimit
  /-- The handles ever given out are the first `k`. -/
  granted : ∀ x, x ∈ HeapEvent.granted (d.events calls) ↔ ∃ i < k, x = Int32.ofNat i
  /-- Each of them is live or free, and not both. -/
  isLive_iff : ∀ x ∈ HeapEvent.granted (d.events calls),
    (d.heap calls).isLive x ↔ x ∉ (d.heap calls).freeList
  granted_of_isLive : ∀ x, (d.heap calls).isLive x → x ∈ HeapEvent.granted (d.events calls)
  granted_of_mem_freeList : ∀ x ∈ (d.heap calls).freeList, x ∈ HeapEvent.granted (d.events calls)
  nodup_freeList : (d.heap calls).freeList.Nodup
  /-- The oldest of the released handles is the next one for blocks, the newest one for slots. -/
  freeList_eq : (d.heap calls).freeList = d.inOrder (HeapEvent.waiting (d.events calls))
  alloc_reuse : ∀ size n x rest, d.size size = .ok n → (d.heap calls).freeList = x :: rest →
    ∃ h', alloc size (d.heap calls) = (.ok x, h')
  alloc_new : ∀ size n, d.size size = .ok n → (d.heap calls).freeList = [] → k < d.handleLimit →
    ∃ h', alloc size (d.heap calls) = (.ok (Int32.ofNat k), h')
  alloc_dead : ∀ size x h', alloc size (d.heap calls) = (.ok x, h') → ¬ (d.heap calls).isLive x
  peak : HasHandles d calls →
    IsGreatest {n | ∃ earlier, earlier <+: calls ∧ (d.heap earlier).live = n} k
  live : HasHandles d calls →
    (d.heap calls).live = (List.range k).countP fun i => (d.heap calls).isLive (Int32.ofNat i)
  refuses : ∀ x, ¬ (d.heap calls).isLive x → (d.heap calls).Refuses x
  /-- A handle that is not live stays so until it is given out. -/
  stays_dead : ∀ later x, ¬ (d.heap calls).isLive x →
    x ∉ HeapEvent.granted ((d.heap calls).events later) → ¬ (d.heap (calls ++ later)).isLive x

variable {h : Heap} {i : Nat} {x : Int32} {calls later : List HeapCall} {d : Discipline}
  {es : List HeapEvent}

theorem isLive_ofNat (hi : i < 0x80000000) :
    h.isLive (Int32.ofNat i) ↔ (h.table.get? i).isSome := by
  have hindex : Word.index? (Int32.ofNat i) = some i := Word.index?_eq_some_iff.2 ⟨hi, rfl⟩
  simp [isLive_iff, HandleTable.find_eq_ok_iff, hindex, Option.isSome_iff_exists]

theorem exists_of_isLive (hx : h.isLive x) :
    ∃ i, i < 0x80000000 ∧ x = Int32.ofNat i ∧ (h.table.get? i).isSome := by
  obtain ⟨i, us, hf⟩ := isLive_iff.1 hx
  obtain ⟨hindex, hus⟩ := HandleTable.find_eq_ok_iff.1 hf
  obtain ⟨hi, rfl⟩ := Word.index?_eq_some_iff.1 hindex
  exact ⟨i, hi, rfl, by rw [hus]; rfl⟩

theorem refuses_of_not_isLive (hx : ¬ h.isLive x) : h.Refuses x := by
  have hfind : h.table.find x = .error (.unknownHandle x) := by
    cases hf : h.table.find x with
    | error e =>
      obtain rfl := HandleTable.eq_of_find_eq_error hf
      rfl
    | ok r => exact absurd (isLive_iff.2 ⟨r.1, r.2, hf⟩) hx
  constructor
  · intro size n hn
    refine eq_error_of_table isAtomic_realloc (table_realloc h x size) ?_
    rw [Discipline.realloc, hn, Action.lift_ok_bind, Action.get_bind, hfind]
    rfl
  · refine eq_error_of_table isAtomic_free (table_free h x) ?_
    rw [Discipline.free, HandleTable.free, Action.get_bind, hfind]
    rfl
  · rw [size_eq, hfind]
    rfl
  · intro offset
    rw [load_eq, hfind]
    rfl
  · intro offset value
    refine eq_error_of_table isAtomic_store (table_store h x offset value) ?_
    rw [Discipline.store, Action.get_bind, hfind]
    rfl

/-- A handle stays released as long as it is not given out. -/
theorem not_isLive_run (hk : h.table.IsKept) (hx : ¬ h.isLive x)
    (hgranted : x ∉ HeapEvent.granted (h.events later)) : ¬ (h.run later).isLive x := by
  induction later generalizing h with
  | nil => exact hx
  | cons c later ih =>
    have hturn := turn_after h c
    rw [events, HeapEvent.granted_append, List.mem_append, not_or] at hgranted
    refine ih (hturn.isKept hk) (fun hlive => ?_) hgranted.2
    obtain ⟨i, hi, rfl, hsome⟩ := exists_of_isLive hlive
    rw [isLive_ofNat hi, Option.not_isSome_iff_eq_none] at hx
    have hnone := hturn.get?_eq_none hk hx hi fun he =>
      hgranted.1 (by rw [he]; simp [HeapEvent.granted])
    rw [hnone] at hsome
    cases hsome

theorem live_eq (hk : h.table.IsKept) : h.live = h.table.live := by
  cases h with
  | blocks t =>
    have hsize := hk.size_entries
    simp only [table, HandleTable.size_entries_map, HandleTable.released_map] at hsize
    simp only [live, Blocks.live, table]
    omega
  | slots t => exact HandleTable.live_map.symm

theorem size_entries_le_run : h.table.entries.size ≤ (h.run calls).table.entries.size := by
  induction calls generalizing h with
  | nil => exact Nat.le_refl _
  | cons c calls ih => exact Nat.le_trans (turn_after h c).size_le ih

theorem live_le_of_isPrefix {earlier : List HeapCall} (he : earlier <+: calls) :
    (d.heap earlier).live ≤ (d.heap calls).table.entries.size := by
  obtain ⟨later, rfl⟩ := he
  have hk := (d.records_heap earlier).isKept
  calc (d.heap earlier).live = (d.heap earlier).table.live := live_eq hk
    _ ≤ (d.heap earlier).table.entries.size := by
      rw [hk.size_entries]
      exact Nat.le_add_right _ _
    _ ≤ (d.heap (earlier ++ later)).table.entries.size := by
      rw [d.heap_append]
      exact size_entries_le_run

/-- When the last new handle was made, all of them were live. -/
theorem exists_live_eq (d : Discipline) (calls : List HeapCall) :
    ∃ earlier, earlier <+: calls ∧ (d.heap earlier).live = (d.heap calls).table.entries.size := by
  induction calls using List.reverseRecOn with
  | nil =>
    refine ⟨[], List.prefix_refl [], ?_⟩
    rw [live_eq (d.records_heap []).isKept, d.heap_nil, table_empty]
    rfl
  | append_singleton calls c ih =>
    have hturn := turn_after (d.heap calls) c
    have hheap : d.heap (calls ++ [c]) = (d.heap calls).after c := d.heap_append
    rcases hturn.size_eq_or with hsize | hfree
    · obtain ⟨earlier, hearlier, hlive⟩ := ih
      refine ⟨earlier, hearlier.trans (List.prefix_append calls [c]), ?_⟩
      rw [hlive, hheap, hsize]
    · refine ⟨calls ++ [c], List.prefix_refl _, ?_⟩
      have hk := (d.records_heap (calls ++ [c])).isKept
      rw [live_eq hk, hk.size_entries, hheap, hfree]
      rfl

theorem mem_freeList_ofNat (hr : h.table.Records d es) (hi : i < d.handleLimit) :
    Int32.ofNat i ∈ h.freeList ↔ i ∈ h.table.released := by
  rw [freeList_eq, List.mem_map]
  constructor
  · rintro ⟨j, hj, heq⟩
    exact d.eq_of_ofNat_eq (hr.released_lt_handleLimit hj) hi heq ▸ hj
  · exact fun hi => ⟨i, hi, rfl⟩

theorem size_entries_le_of_hasHandles (hh : HasHandles d calls) :
    (d.heap calls).table.entries.size ≤ d.handleLimit := by
  induction calls using List.reverseRecOn with
  | nil =>
    rw [d.heap_nil, table_empty]
    exact Nat.zero_le _
  | append_singleton calls c ih =>
    have hturn := turn_after (d.heap calls) c
    have hlast := hh calls c (List.prefix_refl _)
    have hearlier : HasHandles d calls := fun earlier c he =>
      hh earlier c (he.trans (List.prefix_append _ _))
    rw [d.discipline_heap] at hturn
    rw [d.heap_append]
    exact hturn.size_le_handleLimit hlast (ih hearlier)

/-- Handles are accounted for over every history. -/
theorem keepsHandles_of_history (d : Discipline) (calls : List HeapCall) :
    ∃ k, KeepsHandles d calls k := by
  have hr := d.records_heap calls
  have hk := hr.isKept
  have hlimit := d.handleLimit_le
  have lt_iff (i : Nat) : i < min (d.heap calls).table.entries.size d.handleLimit ↔
      i < (d.heap calls).table.entries.size ∧ i < 0x80000000 := by
    rw [Nat.lt_min]
    exact and_congr_right fun hi => ⟨fun hlt => by omega, hr.lt_handleLimit i hi⟩
  have granted (x : Int32) : x ∈ HeapEvent.granted (d.events calls) ↔
      ∃ i < min (d.heap calls).table.entries.size d.handleLimit, x = Int32.ofNat i := by
    simp only [hr.granted, lt_iff, and_assoc]
  have min_eq (hh : HasHandles d calls) :
      min (d.heap calls).table.entries.size d.handleLimit =
        (d.heap calls).table.entries.size := Nat.min_eq_left (size_entries_le_of_hasHandles hh)
  refine ⟨min (d.heap calls).table.entries.size d.handleLimit, ?_⟩
  constructor
  case le_handleLimit => exact Nat.min_le_right _ _
  case granted => exact granted
  case isLive_iff =>
    intro x hx
    obtain ⟨i, hi, hlt, rfl⟩ := (hr.granted x).1 hx
    rw [isLive_ofNat hlt, hk.isSome_get?_iff hi, mem_freeList_ofNat hr (hr.lt_handleLimit i hi hlt)]
  case granted_of_isLive =>
    intro x hx
    obtain ⟨i, hlt, rfl, hsome⟩ := exists_of_isLive hx
    obtain ⟨us, hus⟩ := Option.isSome_iff_exists.1 hsome
    exact (hr.granted _).2 ⟨i, HandleTable.lt_size_of_get? hus, hlt, rfl⟩
  case granted_of_mem_freeList =>
    intro x hx
    rw [freeList_eq] at hx
    obtain ⟨i, hi, rfl⟩ := List.mem_map.1 hx
    exact (hr.granted _).2 ⟨i, hk.lt_size hi, hr.released_lt i hi, rfl⟩
  case nodup_freeList =>
    rw [freeList_eq]
    exact hr.nodup_released
  case freeList_eq => exact (freeList_eq _).trans hr.released
  case alloc_reuse =>
    intro size n x rest hn hfree
    rw [freeList_eq] at hfree
    obtain ⟨i, is, hreleased, rfl, -⟩ := List.map_eq_cons_iff.1 hfree
    have hlt := hr.headD_lt fun hnil => by rw [hreleased] at hnil; cases hnil
    have halloc := (d.heap calls).exists_alloc (by rwa [d.discipline_heap])
      (by rwa [d.discipline_heap])
    rwa [hreleased] at halloc
  case alloc_new =>
    intro size n hn hfree hlt
    rw [freeList_eq] at hfree
    have hreleased := List.map_eq_nil_iff.1 hfree
    have hroom : (d.heap calls).table.entries.size < d.handleLimit := by omega
    have halloc := (d.heap calls).exists_alloc (by rwa [d.discipline_heap])
      (by rw [d.discipline_heap]; exact hr.headD_lt fun _ => hroom)
    rw [Nat.min_eq_left (Nat.le_of_lt hroom)]
    rwa [hreleased] at halloc
  case alloc_dead =>
    intro size x h' hx hlive
    obtain ⟨n, -, hroom, rfl, -⟩ := exists_of_alloc hx
    rw [d.discipline_heap] at hroom
    have hlt := hr.headD_lt hroom
    rw [← HandleTable.fst_insert (x := List.replicate n 0)] at hlt
    rw [isLive_ofNat (by omega), hk.get?_fst_insert] at hlive
    cases hlive
  case peak =>
    intro hh
    rw [min_eq hh]
    refine ⟨exists_live_eq d calls, ?_⟩
    rintro _ ⟨earlier, hearlier, rfl⟩
    exact live_le_of_isPrefix hearlier
  case live =>
    intro hh
    rw [min_eq hh, live_eq hk, HandleTable.live_eq_countP]
    refine List.countP_congr fun i hi => ?_
    have hlt := Nat.lt_of_lt_of_le (List.mem_range.1 hi) (size_entries_le_of_hasHandles hh)
    exact (isLive_ofNat (by omega)).symm
  case refuses => exact fun x hx => refuses_of_not_isLive hx
  case stays_dead =>
    intro later x hx hgranted
    rw [d.heap_append]
    exact not_isLive_run hk hx hgranted

/-- Blocks reuse the handle that was released first, and rows the one that was released last. -/
example :
    let calls : List HeapCall := [.alloc 4, .alloc 8, .free 0, .free 1, .free 1, .alloc 1]
    Discipline.blocks.events calls = [.grant 0, .grant 1, .release 0, .release 1, .grant 0] ∧
      Discipline.slots.events calls = [.grant 0, .grant 1, .release 0, .release 1, .grant 1] ∧
      (Discipline.blocks.heap calls).freeList = [1] ∧
      (Discipline.slots.heap calls).freeList = [0] := by
  decide +kernel

end Heap

end RegisterMachine
