import Mathlib.Data.List.Nodup
import RegisterMachine.Machine.HandleTable

/-!
# Handles of a table

Every handle that a table has made is live or released, and the released ones are listed once each
(`HandleTable.IsKept`). So a handle that is given out was not live, a new one is made only if all
are live, and giving out, changing or releasing one leaves the values of the others.
-/

namespace RegisterMachine.HandleTable

variable {β γ : Type} {t : HandleTable β} {order : ReuseOrder} {h i : Nat} {x y : β}

/-- The released handles are those that were made and have no value, each listed once. -/
structure IsKept (t : HandleTable β) : Prop where
  nodup : t.released.Nodup
  mem_released : ∀ h, h ∈ t.released ↔ t.entries[h]? = some none

theorem isKept_empty : ({} : HandleTable β).IsKept :=
  ⟨.nil, by simp⟩

theorem get?_eq_some_iff : t.get? h = some x ↔ t.entries[h]? = some (some x) := by
  rw [get?, Option.join_eq_some_iff]

theorem lt_size_of_get? (hx : t.get? h = some x) : h < t.entries.size :=
  (Array.getElem?_eq_some_iff.1 (get?_eq_some_iff.1 hx)).1

namespace IsKept

theorem lt_size (hk : t.IsKept) (hh : h ∈ t.released) : h < t.entries.size :=
  (Array.getElem?_eq_some_iff.1 ((hk.mem_released h).1 hh)).1

/-- A handle that was made is live unless it is released. -/
theorem isSome_get?_iff (hk : t.IsKept) (hh : h < t.entries.size) :
    (t.get? h).isSome ↔ h ∉ t.released := by
  rw [hk.mem_released, get?, Array.getElem?_eq_getElem hh]
  cases t.entries[h] <;> simp

end IsKept

section Changes

theorem size_insert :
    (t.insert x).2.entries.size =
      if t.released = [] then t.entries.size + 1 else t.entries.size := by
  unfold insert
  split <;> rename_i hr <;> simp [hr]

theorem released_insert : (t.insert x).2.released = t.released.tail := by
  unfold insert
  split <;> rename_i hr <;> simp [hr]

/-- The handle that is given out next. -/
theorem fst_insert : (t.insert x).1 = t.released.headD t.entries.size := by
  unfold insert
  split <;> rename_i hr <;> simp [hr]

theorem IsKept.get?_fst_insert (hk : t.IsKept) : t.get? (t.insert x).1 = none := by
  rw [fst_insert]
  cases hr : t.released with
  | nil => simp [get?]
  | cons h rest =>
    have hh := (hk.mem_released h).1 (hr ▸ List.mem_cons_self)
    simp [get?, hh]

/-- An entry that is replaced has the new value, and the others keep theirs. -/
theorem get?_setIfInBounds (hh : h < t.entries.size) (entry : Option β) (released : List Nat)
    (i : Nat) :
    (HandleTable.mk (t.entries.setIfInBounds h entry) released).get? i =
      if i = h then entry else t.get? i := by
  by_cases hi : i = h
  · subst hi
    simp [get?, hh]
  · rw [if_neg hi, get?, Array.getElem?_setIfInBounds_ne (Ne.symm hi)]
    rfl

theorem IsKept.get?_insert (hk : t.IsKept) (i : Nat) :
    (t.insert x).2.get? i = if i = (t.insert x).1 then some x else t.get? i := by
  unfold insert
  split <;> rename_i hr
  · rename_i h rest
    exact get?_setIfInBounds (hk.lt_size (hr ▸ List.mem_cons_self)) _ _ i
  · simp only [get?, Array.getElem?_push]
    split <;> rfl

theorem get?_set (hx : t.get? h = some x) (i : Nat) :
    (t.set h y).get? i = if i = h then some y else t.get? i :=
  get?_setIfInBounds (lt_size_of_get? hx) _ _ i

theorem get?_release (hx : t.get? h = some x) (i : Nat) :
    (t.release order h).get? i = if i = h then none else t.get? i :=
  get?_setIfInBounds (lt_size_of_get? hx) _ _ i

theorem IsKept.insert (hk : t.IsKept) : (t.insert x).2.IsKept := by
  cases hr : t.released with
  | nil =>
    have heq : t.insert x = (t.entries.size, { t with entries := t.entries.push (some x) }) := by
      simp [HandleTable.insert, hr]
    rw [heq]
    refine ⟨hk.nodup, fun i => ?_⟩
    rw [hk.mem_released, Array.getElem?_push]
    split
    · rename_i hi
      simp [hi]
    · rfl
  | cons h rest =>
    have heq : t.insert x =
        (h, { entries := t.entries.setIfInBounds h (some x), released := rest }) := by
      simp [HandleTable.insert, hr]
    have hnodup := hk.nodup
    rw [hr, List.nodup_cons] at hnodup
    have hh := hk.lt_size (hr ▸ List.mem_cons_self)
    rw [heq]
    refine ⟨hnodup.2, fun i => ?_⟩
    have hmem := hk.mem_released i
    rw [hr, List.mem_cons] at hmem
    by_cases hi : i = h
    · subst hi
      simp [hnodup.1, hh]
    · simpa [Array.getElem?_setIfInBounds_ne (Ne.symm hi), hi] using hmem

theorem IsKept.set (hk : t.IsKept) (hx : t.get? h = some x) : (t.set h y).IsKept := by
  have hh := lt_size_of_get? hx
  refine ⟨hk.nodup, fun i => ?_⟩
  rw [HandleTable.set, hk.mem_released]
  by_cases hi : i = h
  · subst hi
    rw [get?_eq_some_iff.1 hx, Array.getElem?_setIfInBounds_self_of_lt hh]
    simp
  · rw [Array.getElem?_setIfInBounds_ne (Ne.symm hi)]

theorem mem_released_release :
    i ∈ (t.release order h).released ↔ i = h ∨ i ∈ t.released := by
  cases order <;> simp [release, or_comm]

theorem IsKept.release (hk : t.IsKept) (hx : t.get? h = some x) : (t.release order h).IsKept := by
  have hh := lt_size_of_get? hx
  have hfree : h ∉ t.released := by
    rw [hk.mem_released, get?_eq_some_iff.1 hx]
    simp
  refine ⟨?_, fun i => ?_⟩
  · cases order with
    | newestFirst => exact List.nodup_cons.2 ⟨hfree, hk.nodup⟩
    | oldestFirst =>
      exact (List.perm_append_singleton h t.released).nodup_iff.2
        (List.nodup_cons.2 ⟨hfree, hk.nodup⟩)
  · rw [mem_released_release, hk.mem_released]
    by_cases hi : i = h
    · subst hi
      simp [HandleTable.release, hh]
    · simp [HandleTable.release, Array.getElem?_setIfInBounds_ne (Ne.symm hi), hi]

end Changes

theorem live_eq_countP (t : HandleTable β) :
    t.live = (List.range t.entries.size).countP fun h => (t.get? h).isSome := by
  have hmap : t.entries.toList.map Option.isSome =
      (List.range t.entries.size).map fun h => (t.get? h).isSome := by
    apply List.ext_getElem
    · simp
    · intro h hh _
      have hh : h < t.entries.size := by simpa using hh
      simp [get?, Array.getElem?_eq_getElem hh]
  have hcount := congrArg (List.countP id) hmap
  rw [List.countP_map, List.countP_map] at hcount
  rw [live, ← Array.countP_toList]
  exact hcount

/-- Every handle that was made is counted once, as live or as released. -/
theorem IsKept.size_entries (hk : t.IsKept) :
    t.entries.size = t.live + t.released.length := by
  have hperm : t.released.Perm
      ((List.range t.entries.size).filter fun h => ¬ (t.get? h).isSome) := by
    refine (List.perm_ext_iff_of_nodup hk.nodup (List.nodup_range.filter _)).2 fun h => ?_
    rw [List.mem_filter, List.mem_range]
    constructor
    · intro hh
      have hlt := hk.lt_size hh
      have hdead := mt (hk.isSome_get?_iff hlt).1 (not_not.2 hh)
      exact ⟨hlt, by simpa using hdead⟩
    · rintro ⟨hlt, hdead⟩
      by_contra hh
      exact (by simpa using hdead : ¬ (t.get? h).isSome) ((hk.isSome_get?_iff hlt).2 hh)
  have hcount := List.length_eq_countP_add_countP (fun h => (t.get? h).isSome)
    (l := List.range t.entries.size)
  rw [List.length_range] at hcount
  rw [live_eq_countP, hperm.length_eq, ← List.countP_eq_length_filter]
  exact hcount

section Map

variable {f : β → γ}

/-- The table with each value replaced by what `f` makes of it. -/
def map (f : β → γ) (t : HandleTable β) : HandleTable γ where
  entries := t.entries.map (Option.map f)
  released := t.released

@[simp] theorem released_map : (t.map f).released = t.released := rfl

@[simp] theorem size_entries_map : (t.map f).entries.size = t.entries.size :=
  Array.size_map

theorem get?_map (h : Nat) : (t.map f).get? h = (t.get? h).map f := by
  rw [get?, get?, map, Array.getElem?_map]
  cases t.entries[h]? with
  | none => rfl
  | some entry => rfl

theorem insert_map : (t.map f).insert (f x) = ((t.insert x).1, (t.insert x).2.map f) := by
  unfold insert
  split <;> rename_i hr <;> rw [released_map] at hr <;> simp [map, hr, Array.map_setIfInBounds]

theorem set_map : (t.map f).set h (f x) = (t.set h x).map f := by
  simp [set, map, Array.map_setIfInBounds]

theorem release_map : (t.map f).release order h = (t.release order h).map f := by
  cases order <;> simp [release, map, Array.map_setIfInBounds]

theorem live_map : (t.map f).live = t.live := by
  simp [live_eq_countP, get?_map]

end Map

end RegisterMachine.HandleTable
