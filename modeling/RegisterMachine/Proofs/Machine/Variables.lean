import RegisterMachine.Machine.Variables
import RegisterMachine.Proofs.Action

/-!
# Variables of one scope

Variables are a map from names to words, seen through `List.lookup`. A declaration adds a name that
is not declared, an assignment changes one that is, and neither touches the other names.
-/

namespace RegisterMachine

theorem lookup_cons_eq_ite {α : Type} (name n : Text) (x : α) (entries : List (Text × α)) :
    ((n, x) :: entries).lookup name = if name = n then some x else entries.lookup name := by
  rw [List.lookup_cons]
  split
  · rename_i h
    rw [if_pos (beq_iff_eq.1 h)]
  · rename_i h
    rw [if_neg (beq_eq_false_iff_ne.1 h)]

namespace Variables

variable {vars vars' : Variables} {name : Text} {value : Int32}

theorem declare_eq_ok_iff : declare name vars = (.ok (), vars') ↔
    vars.lookup name = none ∧ vars' = (name, 0) :: vars := by
  unfold declare
  rw [Action.get_bind]
  cases vars.lookup name with
  | none => simp [eq_comm]
  | some x => simp

theorem lookup_declare (name : Text) (vars : Variables) (n : Text) :
    (declare name vars).2.lookup n =
      if n = name then (vars.lookup n).or (some 0) else vars.lookup n := by
  cases h : vars.lookup name with
  | none =>
    rw [declare_eq_ok_iff.2 ⟨h, rfl⟩, lookup_cons_eq_ite]
    split
    · rename_i hn
      rw [hn, h]
      rfl
    · rfl
  | some x =>
    have hfail : declare name vars = (.error (.duplicateVariable name), vars) := by
      simp [declare, h]
    rw [hfail]
    split
    · rename_i hn
      rw [hn, h]
      rfl
    · rfl

theorem assign?_eq_none_iff : vars.assign? name value = none ↔ vars.lookup name = none := by
  induction vars with
  | nil => simp [assign?]
  | cons v vars ih =>
    obtain ⟨n, x⟩ := v
    rw [assign?, lookup_cons_eq_ite]
    by_cases hn : n = name
    · rw [if_pos hn, if_pos hn.symm]
      simp
    · rw [if_neg hn, if_neg (Ne.symm hn), Option.map_eq_none_iff, ih]

theorem lookup_assign? (h : vars.assign? name value = some vars') (n : Text) :
    vars'.lookup n = if n = name then some value else vars.lookup n := by
  induction vars generalizing vars' with
  | nil => cases h
  | cons v vars ih =>
    obtain ⟨a, x⟩ := v
    rw [assign?] at h
    rw [lookup_cons_eq_ite n a]
    split at h
    · rename_i ha
      obtain rfl : a = name := ha
      obtain rfl := Option.some.inj h
      rw [lookup_cons_eq_ite]
      split <;> rfl
    · rename_i ha
      obtain ⟨rest, hrest, rfl⟩ := Option.map_eq_some_iff.1 h
      rw [lookup_cons_eq_ite, ih hrest]
      by_cases hn : n = a
      · rw [if_pos hn, if_pos hn, if_neg (hn ▸ ha)]
      · rw [if_neg hn, if_neg hn]

theorem lookup_set (name : Text) (value : Int32) (vars : Variables) (n : Text) :
    (set name value vars).2.lookup n =
      if n = name then (vars.lookup n).map fun _ => value else vars.lookup n := by
  cases h : vars.assign? name value with
  | none =>
    have hfail : set name value vars = (.error (.unknownVariable name), vars) := by
      simp [set, h]
    rw [hfail]
    split
    · rename_i hn
      rw [hn, assign?_eq_none_iff.1 h]
      rfl
    · rfl
  | some vars' =>
    have hset : set name value vars = (.ok (), vars') := by simp [set, h]
    rw [hset, lookup_assign? h]
    split
    · rename_i hn
      have hdeclared : vars.lookup name ≠ none := fun hnone => by
        rw [assign?_eq_none_iff.2 hnone] at h
        cases h
      obtain ⟨x, hx⟩ := Option.ne_none_iff_exists'.1 hdeclared
      rw [hn, hx]
      rfl
    · rfl

end Variables

end RegisterMachine
