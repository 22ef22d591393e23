import Mathlib.Data.List.Induction
import Mathlib.Data.Nat.Find
import Mathlib.Logic.Relation
import RegisterMachine.Proofs.Assembly.ImportGraph

/-!
# What a unit sees

The search through the imports ends, and the units that it has found are the first occurrences in
the imports of these units themselves, one unit after the other (`Searches.eq_addNew`). From this
equation the order of the units is read off: they are those that can be reached, the nearer ones in
front, and units at the same distance as they are imported (`IsFixed.isBreadthFirst`).
-/

namespace RegisterMachine

namespace ImportGraph

/-- The path is the one of the unit at position `j`, and of no unit behind it. -/
def Names (paths : List Text) (path : Text) (j : Nat) : Prop :=
  paths[j]? = some path ∧ path ∉ paths.drop (j + 1)

instance (paths : List Text) (path : Text) (j : Nat) : Decidable (Names paths path j) :=
  inferInstanceAs (Decidable (_ ∧ _))

/-- An import of unit `i` names unit `j`. -/
def Imports (units : List CompilationUnit) (i j : Nat) : Prop :=
  ∃ u ∈ units[i]?, ∃ path ∈ u.imports, Names (units.map (·.path)) path j

instance (units : List CompilationUnit) (i j : Nat) : Decidable (Imports units i j) :=
  inferInstanceAs (Decidable (∃ u ∈ units[i]?, _))

/-- Unit `j` is reached from unit `i` by `n` imports, one after the other. -/
inductive ImportChain (units : List CompilationUnit) (i : Nat) : Nat → Nat → Prop
  | nil : ImportChain units i 0 i
  | snoc {n j k : Nat} (h : ImportChain units i n j) (hk : Imports units j k) :
    ImportChain units i (n + 1) k

/-- Unit `j` is reached from unit `i` by `n` imports and by no fewer. -/
structure IsDistance (units : List CompilationUnit) (i j n : Nat) : Prop where
  chain : ImportChain units i n j
  le {m : Nat} (h : ImportChain units i m j) : n ≤ m

/-- The position, among the imports of unit `k`, of the first that names unit `j`. -/
def firstImport (units : List CompilationUnit) (k j : Nat) : Nat :=
  match units[k]? with
  | none => 0
  | some u => u.imports.findIdx fun path => Names (units.map (·.path)) path j

/-- The position in `order` of the first unit that imports unit `j`. -/
def firstImporter (units : List CompilationUnit) (order : List Nat) (j : Nat) : Nat :=
  order.findIdx fun k => Imports units k j

/-- Where unit `j` is imported first by the units in `order`: at which unit, and by which of its
imports. -/
def importedAt (units : List CompilationUnit) (order : List Nat) (j : Nat) : Nat × Nat :=
  let p := firstImporter units order j
  (p, firstImport units (order.getD p 0) j)

/-- A list of the units that unit `i` reaches, itself first, then breadth first: the nearer ones in
front, and units at the same distance as they are imported by the units in front of them. -/
structure IsBreadthFirst (units : List CompilationUnit) (i : Nat) (order : List Nat) : Prop where
  head?_eq : order.head? = some i
  nodup : order.Nodup
  mem_iff (j : Nat) : j ∈ order ↔ Relation.ReflTransGen (Imports units) i j
  exists_isDistance : ∀ j ∈ order, ∃ n, IsDistance units i j n
  distance_le :
    order.Pairwise fun j k => ∀ m n, IsDistance units i j m → IsDistance units i k n → m ≤ n
  importedAt_lt :
    order.Pairwise fun j k => ∀ n, IsDistance units i j n → IsDistance units i k n →
      Prod.Lex (· < ·) (· < ·) (importedAt units order j) (importedAt units order k)

section Paths

variable {paths : List Text} {path : Text} {j k : Nat}

theorem lastIndexOf?_eq_some_iff : lastIndexOf? path paths = some j ↔ Names paths path j := by
  induction paths generalizing j with
  | nil => simp [lastIndexOf?, Names]
  | cons p ps ih =>
    rw [lastIndexOf?]
    cases h : lastIndexOf? path ps with
    | some i =>
      obtain ⟨hi, -⟩ := ih.1 h
      have hmem : path ∈ ps := List.mem_of_getElem? hi
      cases j with
      | zero => simp [Names, hmem]
      | succ j =>
        have hj := ih (j := j)
        rw [h] at hj
        simpa [Names] using hj
    | none =>
      have hnone := lastIndexOf?_eq_none_iff.1 h
      cases j with
      | zero => simp [Names, hnone]
      | succ j =>
        have hget : ps[j]? ≠ some path := fun hj => hnone (List.mem_of_getElem? hj)
        simp [Names, hget]

end Paths

section Edges

variable {units : List CompilationUnit} {i j k : Nat} {u : CompilationUnit}

theorem mem_imports_iff : j ∈ imports units i ↔ Imports units i j := by
  unfold imports Imports
  cases units[i]? with
  | none => simp
  | some u => simp [List.mem_filterMap, lastIndexOf?_eq_some_iff]

theorem ImportChain.reflTransGen {n : Nat} (h : ImportChain units i n j) :
    Relation.ReflTransGen (Imports units) i j := by
  induction h with
  | nil => exact .refl
  | snoc _ hk ih => exact ih.tail hk

theorem exists_importChain (h : Relation.ReflTransGen (Imports units) i j) :
    ∃ n, ImportChain units i n j := by
  induction h with
  | refl => exact ⟨0, .nil⟩
  | tail _ hk ih =>
    obtain ⟨n, hn⟩ := ih
    exact ⟨n + 1, hn.snoc hk⟩

theorem exists_isDistance (h : Relation.ReflTransGen (Imports units) i j) :
    ∃ n, IsDistance units i j n := by
  classical
  have hchain := exists_importChain h
  exact ⟨Nat.find hchain, Nat.find_spec hchain, Nat.find_min' hchain⟩

end Edges

section Lists

variable {seen next next' before after : List Nat} {i j : Nat}

theorem addNew_append : addNew seen (next ++ next') = addNew (addNew seen next) next' :=
  List.foldl_append

theorem addNew_concat :
    addNew seen (next ++ [j]) =
      if j ∈ addNew seen next then addNew seen next else addNew seen next ++ [j] :=
  addNew_append

theorem isPrefix_addNew (seen next : List Nat) : seen <+: addNew seen next := by
  induction next using List.reverseRecOn with
  | nil => exact List.prefix_rfl
  | append_singleton next j ih =>
    rw [addNew_concat]
    split
    · exact ih
    · exact ih.trans (List.prefix_append _ _)

/-- New members are added in the order in which they occur first: where one stands in front of
another, it also does so in front of every occurrence of the other. -/
theorem pairwise_addNew (seen next : List Nat) :
    (addNew seen next).Pairwise fun i j =>
      j ∉ seen → ∀ before after, next = before ++ j :: after → i ∈ seen ∨ i ∈ before := by
  induction next using List.reverseRecOn with
  | nil =>
    refine List.pairwise_of_forall_mem_list fun i _ j hj hnew => ?_
    exact absurd hj hnew
  | append_singleton next k ih =>
    -- an occurrence is an old one, or the last member, behind everything that was there before
    have hstep {i j : Nat} (hi : i ∈ addNew seen next)
        (hold : ∀ before after, next = before ++ j :: after → i ∈ seen ∨ i ∈ before)
        (before after : List Nat) (h : next ++ [k] = before ++ j :: after) :
        i ∈ seen ∨ i ∈ before := by
      rcases List.eq_nil_or_concat' after with rfl | ⟨after, l, rfl⟩
      · obtain ⟨rfl, -⟩ := List.append_singleton_inj.1 h
        exact mem_addNew.1 hi
      · rw [← List.cons_append, ← List.append_assoc] at h
        obtain ⟨rfl, -⟩ := List.append_singleton_inj.1 h
        exact hold before after rfl
    have hold := ih.imp_of_mem fun hi _ hij hnew => hstep hi (hij hnew)
    rw [addNew_concat]
    split
    · exact hold
    · rename_i hk
      refine List.pairwise_append.2 ⟨hold, List.pairwise_singleton _ _, fun i hi j hj _ => ?_⟩
      obtain rfl := List.mem_singleton.1 hj
      refine hstep hi fun before after h => ?_
      have hmem : j ∈ next := h ▸ List.mem_append_right _ List.mem_cons_self
      exact absurd (mem_addNew.2 (.inr hmem)) hk

theorem exists_append_of_findIdx {α : Type} {p : α → Bool} {xs : List α} (h : ∃ x ∈ xs, p x) :
    ∃ before x after, xs = before ++ x :: after ∧ p x ∧ before.length = xs.findIdx p := by
  have hlt := List.findIdx_lt_length_of_exists h
  refine ⟨xs.take (xs.findIdx p), xs[xs.findIdx p], xs.drop (xs.findIdx p + 1), ?_,
    List.findIdx_getElem, List.length_take_of_le (Nat.le_of_lt hlt)⟩
  rw [← List.drop_eq_getElem_cons hlt, List.take_append_drop]

theorem findIdx_append_lt {α : Type} {p : α → Bool} {xs ys : List α} (h : ∃ x ∈ xs, p x) :
    (xs ++ ys).findIdx p < xs.length := by
  have hlt := List.findIdx_lt_length_of_exists h
  rwa [List.findIdx_append, if_pos hlt]

end Lists

section Places

variable {units : List CompilationUnit} {order front rest : List Nat} {j k l : Nat}
  {u : CompilationUnit} {path : Text} {early late : List Text}

theorem firstImporter_lt (horder : order = front ++ rest) (hl : l ∈ front)
    (hj : Imports units l j) : firstImporter units order j < front.length := by
  rw [firstImporter, horder]
  exact findIdx_append_lt ⟨l, hl, by simpa using hj⟩

theorem exists_importedAt (h : ∃ l ∈ order, Imports units l k) :
    ∃ front l rest, order = front ++ l :: rest ∧ ∃ u, units[l]? = some u ∧
      ∃ early path late, u.imports = early ++ path :: late ∧
        Names (units.map (·.path)) path k ∧
        importedAt units order k = (front.length, early.length) := by
  obtain ⟨front, l, rest, hfront, himports, hposition⟩ :=
    exists_append_of_findIdx (p := fun l => Imports units l k) (by simpa using h)
  obtain ⟨u, hu, himport⟩ := of_decide_eq_true himports
  obtain ⟨early, path, late, hearly, hpath, hline⟩ :=
    exists_append_of_findIdx (p := fun path => Names (units.map (·.path)) path k)
      (by simpa using himport)
  refine ⟨front, l, rest, hfront, u, hu, early, path, late, hearly, of_decide_eq_true hpath, ?_⟩
  have hget : order[front.length]? = some l := by simp [hfront]
  simp [importedAt, firstImporter, ← hposition, List.getD_eq_getElem?_getD, hget, firstImport,
    Option.mem_def.1 hu, hline]

/-- What is named by an early import of a unit is imported there or further in front. -/
theorem importedAt_lt_of_mem (horder : order = front ++ l :: rest) (hu : units[l]? = some u)
    (hearly : u.imports = early ++ late) (hpath : path ∈ early)
    (hj : Names (units.map (·.path)) path j) :
    Prod.Lex (· < ·) (· < ·) (importedAt units order j) (front.length, early.length) := by
  have hle : firstImporter units order j ≤ front.length := by
    have himports : Imports units l j := ⟨u, hu, path, by simp [hearly, hpath], hj⟩
    have horder' : order = (front ++ [l]) ++ rest := by simp [horder]
    have hlt := firstImporter_lt horder' (by simp) himports
    rw [List.length_append, List.length_singleton] at hlt
    omega
  rcases Nat.lt_or_eq_of_le hle with hlt | heq
  · exact .left _ _ hlt
  · have hget : order[front.length]? = some l := by simp [horder]
    have hplace : importedAt units order j = (front.length, firstImport units l j) := by
      simp [importedAt, heq, List.getD_eq_getElem?_getD, hget]
    rw [hplace]
    refine .right _ ?_
    rw [firstImport, hu]
    dsimp only
    rw [hearly]
    exact findIdx_append_lt ⟨path, hpath, by simpa using hj⟩

end Places

/-- The run of a search: as long as there are units in `seen` behind the first `done`, it takes the
next one and adds what it imports. It ends with the list `found`. -/
inductive Searches (edges : Nat → List Nat) : (done : Nat) → (seen found : List Nat) → Prop
  | stop {done : Nat} {seen : List Nat} (h : seen.length ≤ done) : Searches edges done seen seen
  | look {done i : Nat} {seen found : List Nat} (h : seen[done]? = some i)
    (hs : Searches edges (done + 1) (addNew seen (edges i)) found) : Searches edges done seen found

section Search

variable {edges : Nat → List Nat} {seen found : List Nat} {rounds done n i j : Nat}

/-- Among `n` positions a search ends, at the latest when `n` of them have been looked at. -/
theorem searches_explore (hedges : ∀ i < n, ∀ j ∈ edges i, j < n) (hnodup : seen.Nodup)
    (hseen : ∀ i ∈ seen, i < n) (h : n ≤ done + rounds) :
    Searches edges done seen (explore edges rounds done seen) := by
  induction rounds generalizing done seen with
  | zero =>
    have hsub : ∀ i ∈ seen, i ∈ List.range n := fun i hi => List.mem_range.2 (hseen i hi)
    have hlength : seen.length ≤ n := by simpa using (hnodup.subperm hsub).length_le
    exact .stop (by omega)
  | succ rounds ih =>
    rw [explore]
    cases hi : seen[done]? with
    | none => exact .stop (List.getElem?_eq_none_iff.1 hi)
    | some i =>
      have hlt : i < n := hseen i (List.mem_of_getElem? hi)
      refine .look hi (ih (nodup_addNew hnodup) (fun j hj => ?_) (by omega))
      rcases mem_addNew.1 hj with hj | hj
      · exact hseen j hj
      · exact hedges i hlt j hj

/-- What a search has found are the first occurrences in the edges of what it has found. -/
theorem Searches.eq_addNew (h : Searches edges done seen found)
    (hseen : seen = addNew [i] ((seen.take done).flatMap edges)) :
    found = addNew [i] (found.flatMap edges) := by
  induction h with
  | stop h => rwa [List.take_of_length_le h] at hseen
  | @look done j seen found h _ ih =>
    apply ih
    obtain ⟨hdone, -⟩ := List.getElem?_eq_some_iff.1 h
    -- what was in front stays in front, so the units looked at are the old ones and unit `j`
    have htake : (addNew seen (edges j)).take (done + 1) = seen.take done ++ [j] := by
      obtain ⟨new, hnew⟩ := isPrefix_addNew seen (edges j)
      rw [← hnew, List.take_append_of_le_length (by omega), List.take_add_one, h]
      rfl
    rw [htake, List.flatMap_append, addNew_append, ← hseen, List.flatMap_singleton]

end Search

section Found

variable {units : List CompilationUnit} {found before after : List Nat} {i j k n : Nat}

/-- The units in `found` are unit `i` and what they import, in the order of the first import. -/
def IsFixed (units : List CompilationUnit) (i : Nat) (found : List Nat) : Prop :=
  found = addNew [i] (found.flatMap (imports units))

namespace IsFixed

theorem head?_eq (h : IsFixed units i found) : found.head? = some i := by
  obtain ⟨rest, hrest⟩ := isPrefix_addNew [i] (found.flatMap (imports units))
  rw [h, ← hrest]
  rfl

theorem nodup (h : IsFixed units i found) : found.Nodup := by
  rw [h]
  exact nodup_addNew (List.nodup_singleton i)

theorem mem_iff (h : IsFixed units i found) :
    j ∈ found ↔ j = i ∨ ∃ k ∈ found, Imports units k j := by
  conv_lhs => rw [h]
  simp [mem_addNew, List.mem_flatMap, mem_imports_iff]

theorem mem_of_reflTransGen (h : IsFixed units i found)
    (hj : Relation.ReflTransGen (Imports units) i j) : j ∈ found := by
  induction hj with
  | refl => exact h.mem_iff.2 (.inl rfl)
  | tail _ hk ih => exact h.mem_iff.2 (.inr ⟨_, ih, hk⟩)

/-- Nothing stands in front of the unit where the search starts. -/
theorem ne_of_mem (h : IsFixed units i found) (hfound : found = before ++ k :: after)
    (hj : j ∈ before) : k ≠ i := by
  rintro rfl
  have hhead := h.head?_eq
  have hnodup := h.nodup
  cases before with
  | nil => cases hj
  | cons l before =>
    rw [hfound] at hhead hnodup
    obtain rfl : l = k := Option.some.inj hhead
    simp at hnodup

/-- A unit in front of another one is imported by a unit in front of any that imports the other, or
by that unit itself and there by an earlier import. -/
theorem exists_import (h : IsFixed units i found) (hfound : found = before ++ k :: after)
    (hj : j ∈ before) (hne : j ≠ i) {l : Nat} {front rest : List Nat}
    (hl : found = front ++ l :: rest) {early late : List Nat}
    (hk : imports units l = early ++ k :: late) :
    (∃ l' ∈ front, Imports units l' j) ∨ j ∈ early := by
  have hpairwise := pairwise_addNew [i] (found.flatMap (imports units))
  rw [← h] at hpairwise
  conv at hpairwise => arg 2; rw [hfound]
  have hk' : k ∉ [i] := by simpa using h.ne_of_mem hfound hj
  have hsplit : found.flatMap (imports units) =
      (front.flatMap (imports units) ++ early) ++
        k :: (late ++ rest.flatMap (imports units)) := by
    rw [hl, List.flatMap_append, List.flatMap_cons, hk]
    simp
  rcases (List.pairwise_append.1 hpairwise).2.2 j hj k List.mem_cons_self hk' _ _ hsplit with
    hi | hfront
  · exact absurd (List.mem_singleton.1 hi) hne
  · rcases List.mem_append.1 hfront with hfront | hearly
    · obtain ⟨l', hl', hmem⟩ := List.mem_flatMap.1 hfront
      exact .inl ⟨l', hl', mem_imports_iff.1 hmem⟩
    · exact .inr hearly

/-- A unit in front of another one is reached by no more imports. -/
theorem exists_importChain_le (h : IsFixed units i found) (hchain : ImportChain units i n k)
    (hfound : found = before ++ k :: after) (hj : j ∈ before) :
    ∃ m ≤ n, ImportChain units i m j := by
  induction hchain generalizing before after j with
  | nil => exact absurd rfl (h.ne_of_mem hfound hj)
  | @snoc n l k hl hk ih =>
    by_cases hi : j = i
    · exact ⟨0, Nat.zero_le _, hi ▸ .nil⟩
    · obtain ⟨front, rest, hfront⟩ := List.append_of_mem (h.mem_of_reflTransGen hl.reflTransGen)
      obtain ⟨early, late, hedges⟩ := List.append_of_mem (mem_imports_iff.2 hk)
      rcases h.exists_import hfound hj hi hfront hedges with ⟨l', hl', hj'⟩ | hearly
      · obtain ⟨m, hm, hchain⟩ := ih hfront hl'
        exact ⟨m + 1, by omega, hchain.snoc hj'⟩
      · have hj' : Imports units l j := by
          rw [← mem_imports_iff, hedges]
          exact List.mem_append_left _ hearly
        exact ⟨n + 1, Nat.le_refl _, hl.snoc hj'⟩

/-- A unit is imported earlier than the units behind it. -/
theorem importedAt_lt (h : IsFixed units i found) (hfound : found = before ++ k :: after)
    (hj : j ∈ before) (hne : j ≠ i) :
    Prod.Lex (· < ·) (· < ·) (importedAt units found j) (importedAt units found k) := by
  have hk : k ∈ found := hfound ▸ List.mem_append_right _ List.mem_cons_self
  have himported := (h.mem_iff.1 hk).resolve_left (h.ne_of_mem hfound hj)
  obtain ⟨front, l, rest, hfront, u, hu, early, path, late, hearly, hpath, hplace⟩ :=
    exists_importedAt himported
  rw [hplace]
  have hedges : imports units l =
      early.filterMap (fun path => lastIndexOf? path (units.map (·.path))) ++
        k :: late.filterMap fun path => lastIndexOf? path (units.map (·.path)) := by
    have hname := lastIndexOf?_eq_some_iff.2 hpath
    simp [imports, hu, hearly, List.filterMap_append, hname]
  rcases h.exists_import hfound hj hne hfront hedges with ⟨l', hl', hj'⟩ | hmem
  · exact .left _ _ (firstImporter_lt hfront hl' hj')
  · obtain ⟨path', hpath', hname⟩ := List.mem_filterMap.1 hmem
    exact importedAt_lt_of_mem hfront hu hearly hpath' (lastIndexOf?_eq_some_iff.1 hname)

/-- A list that is fixed lists the units that are seen, breadth first. -/
theorem isBreadthFirst (h : IsFixed units i found)
    (hreach : ∀ j ∈ found, Relation.ReflTransGen (Imports units) i j) :
    IsBreadthFirst units i found := by
  have hpairwise {P : Nat → Nat → Prop}
      (hP : ∀ before k after, found = before ++ k :: after → ∀ j ∈ before, P j k) :
      found.Pairwise P := by
    rw [List.pairwise_iff_getElem]
    intro p q hp hq hpq
    refine hP (found.take q) found[q] (found.drop (q + 1)) ?_ _ ?_
    · rw [← List.drop_eq_getElem_cons hq, List.take_append_drop]
    · exact List.mem_take_iff_getElem.2 ⟨p, by omega, rfl⟩
  constructor
  case head?_eq => exact h.head?_eq
  case nodup => exact h.nodup
  case mem_iff =>
    intro j
    exact ⟨hreach j, h.mem_of_reflTransGen⟩
  case exists_isDistance =>
    intro j hj
    exact exists_isDistance (hreach j hj)
  case distance_le =>
    refine hpairwise fun before k after hfound j hj m n hm hn => ?_
    obtain ⟨m', hle, hchain⟩ := h.exists_importChain_le hn.chain hfound hj
    exact Nat.le_trans (hm.le hchain) hle
  case importedAt_lt =>
    refine hpairwise fun before k after hfound j hj n hm hn => ?_
    refine h.importedAt_lt hfound hj ?_
    -- the unit where the search starts is at distance zero, and no other unit is
    rintro rfl
    obtain rfl : n = 0 := Nat.le_zero.1 (hm.le .nil)
    cases hn.chain
    exact h.ne_of_mem hfound hj rfl

end IsFixed

end Found

section Visible

variable {units : List CompilationUnit} {i j : Nat}

theorem searches_visibleFrom (hi : i < units.length) :
    Searches (imports units) 0 [i] ((build units).visibleFrom i) := by
  rw [visibleFrom_build, if_pos hi]
  refine searches_explore (n := units.length) ?_ (List.nodup_singleton i) ?_ (Nat.le_add_left _ _)
  · intro _ _ _ hj
    exact lt_length_of_mem_imports hj
  · simpa using hi

theorem reflTransGen_of_mem_visibleFrom (h : j ∈ (build units).visibleFrom i) :
    Relation.ReflTransGen (Imports units) i j := by
  rw [visibleFrom_build] at h
  split at h
  · refine forall_mem_explore (P := Relation.ReflTransGen (Imports units) i) ?_ ?_ j h
    · intro j hj k hk
      exact hj.tail (mem_imports_iff.1 hk)
    · simpa using Relation.ReflTransGen.refl
  · cases h

theorem isFixed_visibleFrom (hi : i < units.length) :
    IsFixed units i ((build units).visibleFrom i) :=
  (searches_visibleFrom hi).eq_addNew rfl

/-- What a unit sees is what it reaches through imports. -/
theorem reaches_iff (hi : i < units.length) :
    (build units).reaches i j ↔ Relation.ReflTransGen (Imports units) i j := by
  rw [reaches, decide_eq_true_iff]
  exact ⟨reflTransGen_of_mem_visibleFrom, (isFixed_visibleFrom hi).mem_of_reflTransGen⟩

end Visible

/-- The search of every unit ends, and the unit sees what it reaches through imports: itself first,
then breadth first in the order of the imports. -/
theorem isBreadthFirst_visibleFrom (units : List CompilationUnit) {i : Nat}
    (hi : i < units.length) :
    Searches (imports units) 0 [i] ((build units).visibleFrom i) ∧
      IsBreadthFirst units i ((build units).visibleFrom i) ∧
      ∀ j, (build units).reaches i j ↔ Relation.ReflTransGen (Imports units) i j := by
  refine ⟨searches_visibleFrom hi, ?_, fun j => reaches_iff hi⟩
  exact (isFixed_visibleFrom hi).isBreadthFirst fun j hj => reflTransGen_of_mem_visibleFrom hj

/-- Two ways lead to the last unit, one of the imports leads back to the first, and the path `a`
stands for the second unit that has it. -/
theorem isBreadthFirst_visibleFrom_cycle :
    let unit (path : String) (imports : List String) : CompilationUnit :=
      { CompilationUnit.empty path.toList {} with imports := imports.map (·.toList) }
    let units := [unit "m" ["b", "a"], unit "a" [], unit "a" ["c", "m"], unit "b" ["d"],
      unit "c" [], unit "d" ["c"]]
    0 < units.length ∧ (build units).visibleFrom 0 = [0, 3, 2, 5, 4] ∧
      Searches (imports units) 0 [0] [0, 3, 2, 5, 4] ∧ IsBreadthFirst units 0 [0, 3, 2, 5, 4] ∧
      ∀ j, (build units).reaches 0 j ↔ Relation.ReflTransGen (Imports units) 0 j := by
  intro unit units
  have hvisible : (build units).visibleFrom 0 = [0, 3, 2, 5, 4] := by decide +kernel
  have h := isBreadthFirst_visibleFrom units (i := 0) (by decide)
  rw [hvisible] at h
  exact ⟨by decide, hvisible, h⟩

end ImportGraph

end RegisterMachine
