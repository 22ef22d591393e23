import Mathlib.Data.List.Nodup
import Mathlib.Data.List.Perm.Subperm
import RegisterMachine.Assembly.ImportGraph

/-!
# The search through the imports

What a search has reached is closed under nothing but the edges it followed, so a search that stays
among `n` units is over after `n` rounds, and it sees the same when its units are renumbered. Two
lists of units that import nothing from one another are therefore searched as if each stood alone
(`visibleFrom_append_left`, `visibleFrom_append_right`).
-/

namespace RegisterMachine

section Paths

variable {path : Text} {as bs : List Text}

theorem lastIndexOf?_eq_none_iff : lastIndexOf? path bs = none ↔ path ∉ bs := by
  induction bs with
  | nil => simp [lastIndexOf?]
  | cons b bs ih =>
    rw [lastIndexOf?, List.mem_cons, not_or]
    cases h : lastIndexOf? path bs with
    | some i =>
      have hmem : path ∈ bs := by
        by_contra hnone
        rw [ih.2 hnone] at h
        cases h
      simp [hmem]
    | none =>
      have hnone := ih.1 h
      by_cases hb : b = path
      · simp [hb]
      · simp [hb, hnone, Ne.symm hb]

theorem lt_length_of_lastIndexOf? {i : Nat} (h : lastIndexOf? path bs = some i) :
    i < bs.length := by
  induction bs generalizing i with
  | nil => cases h
  | cons b bs ih =>
    rw [lastIndexOf?] at h
    split at h
    · rename_i j hj
      obtain rfl := Option.some.inj h
      have := ih hj
      simp only [List.length_cons]
      omega
    · split at h <;> cases h
      simp

theorem lastIndexOf?_append_of_notMem (h : path ∉ bs) :
    lastIndexOf? path (as ++ bs) = lastIndexOf? path as := by
  induction as with
  | nil => exact lastIndexOf?_eq_none_iff.2 h
  | cons a as ih => simp only [List.cons_append, lastIndexOf?, ih]

theorem lastIndexOf?_append_of_mem (h : path ∈ bs) :
    lastIndexOf? path (as ++ bs) = (lastIndexOf? path bs).map (as.length + ·) := by
  cases hi : lastIndexOf? path bs with
  | none => exact absurd h (lastIndexOf?_eq_none_iff.1 hi)
  | some i =>
    induction as with
    | nil => simp [hi]
    | cons a as ih =>
      rw [List.cons_append, lastIndexOf?, ih]
      simp only [Option.map_some, List.length_cons]
      congr 1
      omega

end Paths

namespace ImportGraph

section Search

variable {edges edges' : Nat → List Nat} {seen next : List Nat} {rounds done n i j : Nat}

@[simp] theorem addNew_nil : addNew seen [] = seen := rfl

@[simp] theorem addNew_cons :
    addNew seen (i :: next) = addNew (if i ∈ seen then seen else seen ++ [i]) next := rfl

theorem mem_addNew : j ∈ addNew seen next ↔ j ∈ seen ∨ j ∈ next := by
  induction next generalizing seen with
  | nil => simp
  | cons i next ih =>
    rw [addNew_cons, ih]
    split
    · rename_i hi
      constructor
      · rintro (h | h)
        · exact .inl h
        · exact .inr (List.mem_cons_of_mem _ h)
      · rintro (h | h)
        · exact .inl h
        · rcases List.mem_cons.1 h with rfl | h
          · exact .inl hi
          · exact .inr h
    · simp only [List.mem_append, List.mem_cons]
      tauto

theorem nodup_addNew (h : seen.Nodup) : (addNew seen next).Nodup := by
  induction next generalizing seen with
  | nil => exact h
  | cons i next ih =>
    rw [addNew_cons]
    split
    · exact ih h
    · rename_i hi
      apply ih
      rw [← List.concat_eq_append, List.nodup_concat]
      exact ⟨hi, h⟩

theorem addNew_map {g : Nat → Nat} (hg : Function.Injective g) :
    addNew (seen.map g) (next.map g) = (addNew seen next).map g := by
  induction next generalizing seen with
  | nil => rfl
  | cons i next ih =>
    rw [List.map_cons, addNew_cons, addNew_cons, ← ih]
    congr 1
    by_cases hi : i ∈ seen
    · rw [if_pos hi, if_pos (List.mem_map_of_mem hi)]
    · rw [if_neg hi, if_neg fun h => hi ((List.mem_map_of_injective hg).1 h), List.map_append]
      rfl

/-- What adding the edges of a member keeps, the search keeps. -/
theorem explore_induction {P : List Nat → Prop} (h : P seen)
    (hstep : ∀ seen, P seen → ∀ i ∈ seen, P (addNew seen (edges i))) :
    P (explore edges rounds done seen) := by
  induction rounds generalizing done seen with
  | zero => exact h
  | succ rounds ih =>
    rw [explore]
    split
    · exact h
    · rename_i i hi
      exact ih (hstep seen h i (List.mem_of_getElem? hi))

theorem nodup_explore (h : seen.Nodup) : (explore edges rounds done seen).Nodup :=
  explore_induction h fun _ h _ _ => nodup_addNew h

theorem forall_mem_explore {P : Nat → Prop} (hedges : ∀ i, P i → ∀ j ∈ edges i, P j)
    (h : ∀ i ∈ seen, P i) : ∀ i ∈ explore edges rounds done seen, P i := by
  refine explore_induction (P := fun seen => ∀ i ∈ seen, P i) h ?_
  intro seen h i hi j hj
  rcases mem_addNew.1 hj with hj | hj
  · exact h j hj
  · exact hedges i (h i hi) j hj

theorem explore_of_length_le (h : seen.length ≤ done) : explore edges rounds done seen = seen := by
  cases rounds with
  | zero => rfl
  | succ rounds => rw [explore, List.getElem?_eq_none h]

theorem explore_add (rounds' : Nat) :
    explore edges (rounds + rounds') done seen =
      explore edges rounds' (done + rounds) (explore edges rounds done seen) := by
  induction rounds generalizing done seen with
  | zero => rw [Nat.zero_add, Nat.add_zero, explore]
  | succ rounds ih =>
    rw [Nat.succ_add, explore, explore]
    cases hi : seen[done]? with
    | none =>
      have hle : seen.length ≤ done + (rounds + 1) :=
        Nat.le_add_right_of_le (List.getElem?_eq_none_iff.1 hi)
      exact (explore_of_length_le hle).symm
    | some i =>
      dsimp only
      rw [ih]
      congr 1
      omega

/-- A search among `n` positions is over after `n` rounds. -/
theorem explore_eq_of_le (hedges : ∀ i < n, ∀ j ∈ edges i, j < n) (hi : i < n) (h : n ≤ rounds) :
    explore edges rounds 0 [i] = explore edges n 0 [i] := by
  have hlt : ∀ j ∈ explore edges n 0 [i], j ∈ List.range n := by
    intro j hj
    refine List.mem_range.2 (forall_mem_explore hedges ?_ j hj)
    simpa using hi
  have hlength : (explore edges n 0 [i]).length ≤ n := by
    have hnodup : (explore edges n 0 [i]).Nodup := nodup_explore (List.nodup_singleton i)
    simpa using (hnodup.subperm hlt).length_le
  obtain ⟨more, rfl⟩ := Nat.exists_eq_add_of_le h
  rw [explore_add, explore_of_length_le (by omega)]

/-- A search sees the same when its positions are renumbered. -/
theorem explore_map {g : Nat → Nat} {P : Nat → Prop} (hg : Function.Injective g)
    (hedges : ∀ i, P i → ∀ j ∈ edges i, P j) (h : ∀ i ∈ seen, P i)
    (hmap : ∀ i, P i → edges' (g i) = (edges i).map g) :
    explore edges' rounds done (seen.map g) = (explore edges rounds done seen).map g := by
  induction rounds generalizing done seen with
  | zero => rfl
  | succ rounds ih =>
    rw [explore, explore, List.getElem?_map]
    cases hi : seen[done]? with
    | none => rfl
    | some i =>
      have hPi : P i := h i (List.mem_of_getElem? hi)
      dsimp only [Option.map_some]
      rw [hmap i hPi, addNew_map hg]
      apply ih
      intro j hj
      rcases mem_addNew.1 hj with hj | hj
      · exact h j hj
      · exact hedges i hPi j hj

end Search

section Units

variable {units A B : List CompilationUnit} {i j : Nat}

theorem lt_length_of_mem_imports (h : j ∈ imports units i) : j < units.length := by
  unfold imports at h
  split at h
  · cases h
  · obtain ⟨path, -, hj⟩ := List.mem_filterMap.1 h
    simpa using lt_length_of_lastIndexOf? hj

theorem visibleFrom_build :
    (build units).visibleFrom i =
      if i < units.length then explore (imports units) units.length 0 [i] else [] := by
  by_cases hi : i < units.length <;> simp [visibleFrom, build, Array.getD, hi]

theorem lt_length_of_mem_visibleFrom (h : j ∈ (build units).visibleFrom i) : j < units.length := by
  rw [visibleFrom_build] at h
  split at h
  · rename_i hi
    refine forall_mem_explore (fun _ _ _ hj => lt_length_of_mem_imports hj) ?_ j h
    simpa using hi
  · cases h

/-- The graph depends on the paths and the imports of the units alone. -/
theorem build_map {g : CompilationUnit → CompilationUnit} (hpath : ∀ u, (g u).path = u.path)
    (himports : ∀ u, (g u).imports = u.imports) : build (units.map g) = build units := by
  have hpaths : (units.map g).map (·.path) = units.map (·.path) := by
    rw [List.map_map]
    exact List.map_congr_left fun u _ => hpath u
  have hedges : imports (units.map g) = imports units := by
    funext i
    unfold imports
    rw [hpaths, List.getElem?_map]
    cases units[i]? with
    | none => rfl
    | some u => simp [himports]
  unfold build
  congr 1
  apply Array.ext
  · simp
  · intro i _ _
    simp [hedges]

theorem imports_append_left (hA : ∀ u ∈ A, ∀ path ∈ u.imports, path ∉ B.map (·.path))
    (hi : i < A.length) : imports (A ++ B) i = imports A i := by
  unfold imports
  rw [List.getElem?_append_left hi, List.map_append]
  cases hu : A[i]? with
  | none => rfl
  | some u =>
    refine List.filterMap_congr fun path hpath => ?_
    exact lastIndexOf?_append_of_notMem (hA u (List.mem_of_getElem? hu) path hpath)

theorem imports_append_right (hB : ∀ u ∈ B, ∀ path ∈ u.imports, path ∈ B.map (·.path)) :
    imports (A ++ B) (A.length + i) = (imports B i).map (A.length + ·) := by
  unfold imports
  rw [List.getElem?_append_right (Nat.le_add_right _ _), Nat.add_sub_cancel_left, List.map_append]
  cases hu : B[i]? with
  | none => rfl
  | some u =>
    dsimp only
    rw [List.map_filterMap]
    refine List.filterMap_congr fun path hpath => ?_
    rw [lastIndexOf?_append_of_mem (hB u (List.mem_of_getElem? hu) path hpath), List.length_map]

theorem visibleFrom_append_left (hA : ∀ u ∈ A, ∀ path ∈ u.imports, path ∉ B.map (·.path))
    (hi : i < A.length) : (build (A ++ B)).visibleFrom i = (build A).visibleFrom i := by
  have hlt : ∀ i < A.length, ∀ j ∈ imports A i, j < A.length :=
    fun _ _ _ hj => lt_length_of_mem_imports hj
  have hsame (rounds : Nat) :
      explore (imports (A ++ B)) rounds 0 [i] = explore (imports A) rounds 0 [i] := by
    have hmap : explore (imports (A ++ B)) rounds 0 ([i].map id) =
        (explore (imports A) rounds 0 [i]).map id :=
      explore_map (P := (· < A.length)) Function.injective_id hlt (by simpa using hi)
        fun i hi => by simpa using imports_append_left hA hi
    simpa using hmap
  have hle : A.length ≤ (A ++ B).length := by simp
  rw [visibleFrom_build, visibleFrom_build, if_pos hi, if_pos (Nat.lt_of_lt_of_le hi hle), hsame,
    explore_eq_of_le hlt hi hle]

theorem visibleFrom_append_right (hB : ∀ u ∈ B, ∀ path ∈ u.imports, path ∈ B.map (·.path)) :
    (build (A ++ B)).visibleFrom (A.length + i) =
      ((build B).visibleFrom i).map (A.length + ·) := by
  have hsame (rounds : Nat) : explore (imports (A ++ B)) rounds 0 ([i].map (A.length + ·)) =
      (explore (imports B) rounds 0 [i]).map (A.length + ·) :=
    explore_map (P := fun _ => True) (fun _ _ h => Nat.add_left_cancel h)
      (fun _ _ _ _ => trivial) (fun _ _ => trivial) fun _ _ => imports_append_right hB
  rw [List.map_singleton] at hsame
  have hlength : (A ++ B).length = A.length + B.length := List.length_append
  rw [visibleFrom_build, visibleFrom_build, hlength]
  by_cases hi : i < B.length
  · have hlt : ∀ i < B.length, ∀ j ∈ imports B i, j < B.length :=
      fun _ _ _ hj => lt_length_of_mem_imports hj
    rw [if_pos hi, if_pos (by omega), hsame, explore_eq_of_le hlt hi (by omega)]
  · rw [if_neg hi, if_neg (by omega), List.map_nil]

end Units

end ImportGraph

end RegisterMachine
