import RegisterMachine.Machine.Buffer

/-!
# Contents of buffers

What every change of a buffer does to each of its cells. A buffer may be continued with zeros: what
is written to the buffer, copied within it or read from it up to a zero is the same in the longer
one. The cells in order are a list (`Buffer.toList`), and a write is a change of that list.
-/

namespace RegisterMachine.Buffer

variable {α : Type} [Zero α] {b : Buffer α} {n i : Nat}

theorem get_restrict (b : Buffer α) (n : Nat) (p : Nat → Bool) (i : Nat) :
    (b.restrict n p).get i = if p i ∧ i < n then b.get i else 0 := by
  rw [get, get, restrict, Std.ExtTreeMap.getElem?_filter']
  cases b.cells[i]? with
  | none => simp
  | some v => by_cases h : p i ∧ i < n <;> simp [Option.filter_some, h]

@[simp] theorem size_resize (b : Buffer α) (n : Nat) : (b.resize n).size = n := rfl

@[simp] theorem get_resize (h : b.size ≤ n) (i : Nat) : (b.resize n).get i = b.get i := by
  simp only [resize, get_restrict]
  split
  · rfl
  · rename_i hi
    rw [get_of_size_le]
    simp only [true_and, Nat.not_lt] at hi
    omega

variable [DecidableEq α]

theorem resize_size (b : Buffer α) : b.resize b.size = b :=
  ext_get rfl (get_resize (Nat.le_refl _))

@[simp] theorem resize_zeros {m : Nat} (h : m ≤ n) : (zeros m : Buffer α).resize n = zeros n := by
  apply ext_get
  · rfl
  · simp [get_resize (show (zeros m : Buffer α).size ≤ n from h)]

theorem set_resize (h : b.size ≤ n) (hi : i < b.size) (v : α) :
    (b.resize n).set i v = (b.set i v).resize n := by
  apply ext_get
  · simp
  · intro j
    rw [get_resize (by simpa using h), get_set, get_set, get_resize h]
    simp [hi, Nat.lt_of_lt_of_le hi h]

theorem write_resize (h : b.size ≤ n) {start : Nat} {vs : List α}
    (hrange : start + vs.length ≤ b.size) :
    (b.resize n).write start vs = (b.write start vs).resize n := by
  induction vs generalizing b start with
  | nil => rfl
  | cons v vs ih =>
    simp only [List.length_cons] at hrange
    rw [write, write, set_resize h (by omega)]
    apply ih
    · simpa using h
    · simp only [size_set]
      omega

theorem set_get (b : Buffer α) (i : Nat) : b.set i (b.get i) = b := by
  apply ext_get
  · exact size_set b i _
  · intro j
    rw [get_set]
    split
    · rename_i hij
      rw [hij.1]
    · rfl

/-- A write changes the cells it covers and no others. -/
theorem get_write {start : Nat} {vs : List α} (h : start + vs.length ≤ b.size) (i : Nat) :
    (b.write start vs).get i = if start ≤ i then vs[i - start]?.getD (b.get i) else b.get i := by
  induction vs generalizing b start with
  | nil => simp [write]
  | cons v vs ih =>
    rw [List.length_cons] at h
    rw [write, ih (by rw [size_set]; omega), get_set]
    rcases Nat.lt_trichotomy i start with hi | rfl | hi
    · rw [if_neg (by omega), if_neg (by omega), if_neg (by omega)]
    · rw [if_neg (by omega), if_pos ⟨rfl, by omega⟩, if_pos (Nat.le_refl i)]
      simp
    · obtain ⟨k, rfl⟩ := Nat.exists_eq_add_of_lt hi
      have hrest : start + k + 1 - (start + 1) = k := by omega
      have hall : start + k + 1 - start = k + 1 := by omega
      rw [if_pos (by omega), if_neg (by omega), if_pos (by omega), hrest, hall,
        List.getElem?_cons_succ]

/-- Cells that are written back are as they were. -/
theorem write_slice (b : Buffer α) (start len : Nat) : b.write start (b.slice start len) = b := by
  induction len generalizing start with
  | zero => rfl
  | succ len ih =>
    show (b.set start (b.get start)).write (start + 1) (b.slice (start + 1) len) = b
    rw [set_get, ih]

omit [DecidableEq α] in
/-- The values stand in the buffer from `start` on. -/
def Holds (b : Buffer α) (start : Nat) (vs : List α) : Prop :=
  ∀ k v, vs[k]? = some v → b.get (start + k) = v

theorem holds_write {start : Nat} {vs : List α} (h : start + vs.length ≤ b.size) :
    (b.write start vs).Holds start vs := by
  intro k v hv
  rw [get_write h, if_pos (Nat.le_add_right _ _), Nat.add_sub_cancel_left, hv]
  rfl

omit [DecidableEq α] in
theorem mem_stored_iff {src len k : Nat} {v : α} :
    (k, v) ∈ b.stored src len ↔ b.cells[k]? = some v ∧ src ≤ k ∧ k < src + len := by
  rw [stored, List.mem_filter, Std.ExtTreeMap.mem_toList_iff_getElem?_eq_some]
  simp

/-- A cell after several changes: those that reach it agree on its value, and if there is none, it
had the value before. -/
theorem get_foldl_set {cs : List (Nat × α)} {g : Nat × α → Nat} {v : α}
    (hsize : ∀ c ∈ cs, g c < b.size) (hall : ∀ c ∈ cs, g c = i → c.2 = v)
    (hsome : (∃ c ∈ cs, g c = i) ∨ b.get i = v) :
    (cs.foldl (fun r c => r.set (g c) c.2) b).get i = v := by
  induction cs generalizing b with
  | nil => simpa using hsome
  | cons c cs ih =>
    obtain ⟨hc, hcs⟩ := List.forall_mem_cons.1 hsize
    obtain ⟨hv, hvs⟩ := List.forall_mem_cons.1 hall
    rw [List.foldl_cons]
    refine ih (by simpa using hcs) hvs ?_
    rw [get_set]
    by_cases hi : g c = i
    · exact .inr (by rw [if_pos ⟨hi, hc⟩, hv hi])
    · rw [if_neg fun h => hi h.1]
      simpa [hi] using hsome

/-- A copy reads all cells as they were before it, however the two ranges overlap. -/
theorem get_copy {src dst len : Nat} (h : dst + len ≤ b.size) (i : Nat) :
    (b.copy src dst len).get i =
      if dst ≤ i ∧ i < dst + len then b.get (i - dst + src) else b.get i := by
  have hsize : ∀ c ∈ b.stored src len, c.1 - src + dst < b.size := by
    rintro ⟨k, v⟩ hc
    obtain ⟨-, hk⟩ := mem_stored_iff.1 hc
    dsimp only
    omega
  refine get_foldl_set (b := b.restrict b.size _) hsize ?_ ?_
  · rintro ⟨k, v⟩ hc hi
    obtain ⟨hv, hk⟩ := mem_stored_iff.1 hc
    dsimp only at hi ⊢
    have hsrc : i - dst + src = k := by omega
    rw [if_pos (by omega), hsrc, get, hv]
    rfl
  · rw [get_restrict]
    by_cases hi : dst ≤ i ∧ i < dst + len
    · simp only [if_pos hi]
      by_cases hv : b.get (i - dst + src) = 0
      · -- a zero is not stored, and the cell was cleared
        rw [hv]
        exact .inr (if_neg (by simp [hi]))
      · have hcell : b.cells[i - dst + src]? = some (b.get (i - dst + src)) := by
          rw [getElem?_cells, if_neg hv]
        refine .inl ⟨_, mem_stored_iff.2 ⟨hcell, by omega, by omega⟩, ?_⟩
        dsimp only
        omega
    · right
      rw [if_neg hi]
      split
      · rfl
      · rename_i hout
        simp only [Bool.not_eq_true', Bool.and_eq_false_iff, decide_eq_false_iff_not] at hout
        exact (get_of_size_le b (by omega)).symm

theorem copy_resize (h : b.size ≤ n) {src dst len : Nat} (hdst : dst + len ≤ b.size) :
    (b.resize n).copy src dst len = (b.copy src dst len).resize n := by
  apply ext_get
  · rw [size_copy, size_resize, size_resize]
  · intro i
    have hdst' : dst + len ≤ (b.resize n).size := Nat.le_trans hdst h
    have hcopy : (b.copy src dst len).size ≤ n := by rwa [size_copy]
    rw [get_copy hdst', get_resize hcopy, get_copy hdst, get_resize h, get_resize h]

theorem untilZero_go_congr {c : Buffer α} (h : ∀ i, b.get i = c.get i) :
    untilZero.go b n i = untilZero.go c n i := by
  induction n generalizing i with
  | zero => rfl
  | succ n ih => rw [untilZero.go, untilZero.go, h, ih]

/-- Behind the end of the buffer the reading stops at once. -/
theorem untilZero_go_add {k : Nat} (h : b.size ≤ i + n) :
    untilZero.go b (n + k) i = untilZero.go b n i := by
  induction n generalizing i with
  | zero =>
    cases k with
    | zero => rfl
    | succ k => simp [untilZero.go, get_of_size_le b (show b.size ≤ i from h)]
  | succ n ih =>
    rw [Nat.succ_add, untilZero.go, untilZero.go, ih]
    omega

theorem untilZero_resize (h : b.size ≤ n) (start : Nat) :
    (b.resize n).untilZero start = b.untilZero start := by
  obtain ⟨k, hk⟩ : ∃ k, n - start = b.size - start + k := ⟨n - start - (b.size - start), by omega⟩
  rw [untilZero, untilZero, size_resize, untilZero_go_congr (get_resize h), hk, untilZero_go_add]
  omega

/-- The reading stops at the first zero, which may be the last cell. -/
theorem untilZero_eq_of_holds {start : Nat} {vs : List α} (h : b.Holds start (vs ++ [0]))
    (hvs : 0 ∉ vs) : b.untilZero start = vs := by
  rw [untilZero]
  induction vs generalizing start with
  | nil =>
    have hzero : b.get start = 0 := h 0 0 rfl
    cases b.size - start with
    | zero => rfl
    | succ k => rw [untilZero.go, if_pos hzero]
  | cons v vs ih =>
    rw [List.mem_cons, not_or] at hvs
    have hv : b.get start = v := h 0 v rfl
    have hrest : b.Holds (start + 1) (vs ++ [0]) := by
      intro k w hw
      rw [Nat.add_assoc, Nat.add_comm 1]
      exact h (k + 1) w hw
    have hne : b.get start ≠ 0 := fun hz => hvs.1 (hz.symm.trans hv)
    have hlt : start < b.size := Nat.lt_of_not_le fun hle => hne (get_of_size_le b hle)
    have hcount : b.size - start = b.size - (start + 1) + 1 := by omega
    rw [hcount, untilZero.go, if_neg hne, hv, ih hrest hvs.2]

section Cells

omit [DecidableEq α]

@[simp] theorem length_toList (b : Buffer α) : b.toList.length = b.size := by
  simp [toList, slice]

theorem getElem?_toList (b : Buffer α) (i : Nat) :
    b.toList[i]? = if i < b.size then some (b.get i) else none := by
  rw [toList, slice, List.getElem?_map]
  split
  · rename_i hi
    simp [List.getElem?_range' hi]
  · rename_i hi
    simp [Nat.not_lt.1 hi]

theorem toList_zeros (n : Nat) : (zeros n : Buffer α).toList = List.replicate n 0 := by
  apply List.ext_getElem?
  intro i
  simp [getElem?_toList, List.getElem?_replicate]

theorem toList_resize (b : Buffer α) (n : Nat) :
    (b.resize n).toList = b.toList.take n ++ List.replicate (n - b.size) 0 := by
  apply List.ext_getElem?
  intro i
  have hget : (b.resize n).get i = if i < n then b.get i else 0 := by
    simp [resize, get_restrict]
  rw [getElem?_toList, size_resize, hget]
  rcases Nat.lt_or_ge i (min n b.size) with hi | hi
  · have hb : i < b.size := by omega
    have hn : i < n := by omega
    rw [List.getElem?_append_left (by simpa using hi), List.getElem?_take_of_lt hn,
      getElem?_toList, if_pos hn, if_pos hn, if_pos hb]
  · rw [List.getElem?_append_right (by simpa using hi), List.getElem?_replicate]
    by_cases hn : i < n
    · -- a new cell is zero
      have hb : b.size ≤ i := by omega
      have hlt : i - min n b.size < n - b.size := by omega
      simp [hn, hlt, get_of_size_le b hb]
    · have hge : ¬ i - min n b.size < n - b.size := by omega
      simp [hn, hge]

end Cells

theorem toList_set (b : Buffer α) (i : Nat) (v : α) : (b.set i v).toList = b.toList.set i v := by
  apply List.ext_getElem?
  intro j
  rw [getElem?_toList, size_set, get_set, List.getElem?_set, length_toList, getElem?_toList]
  grind

theorem toList_write {start : Nat} {vs : List α} (h : start + vs.length ≤ b.size) :
    (b.write start vs).toList =
      b.toList.take start ++ vs ++ b.toList.drop (start + vs.length) := by
  induction vs generalizing b start with
  | nil => simp [write]
  | cons v vs ih =>
    rw [List.length_cons] at h
    have hstart : start < b.toList.length := by
      rw [length_toList]
      omega
    have htake : (b.toList.set start v).take (start + 1) = b.toList.take start ++ [v] := by
      rw [List.take_succ_eq_append_getElem (by simpa using hstart), List.take_set_of_le (Nat.le_refl _),
        List.getElem_set_self]
    have hdrop : (b.toList.set start v).drop (start + 1 + vs.length) =
        b.toList.drop (start + (vs.length + 1)) := by
      rw [List.drop_set_of_lt (by omega), Nat.add_right_comm, Nat.add_assoc]
    rw [write, ih (by rw [size_set]; omega), toList_set, htake, hdrop, List.length_cons]
    simp

end RegisterMachine.Buffer
