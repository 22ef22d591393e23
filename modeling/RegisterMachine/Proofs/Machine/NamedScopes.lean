import Mathlib.Data.List.Induction
import RegisterMachine.Proofs.Machine.Atomicity
import RegisterMachine.Proofs.Machine.Variables

/-!
# Histories of named scopes

A history is the list of the calls that programs have made of the named scopes, the failed ones
included. What is known of one variable of one scope is an entry: no scope, no variable, or a value
(`NamedScopes.entry`). `NamedScopes.entry_after` says once what a call does to an entry, so the
entry behind a history is a fold over its calls. `NamedScopes.followsHistory_run` reads the answer
to a `get` off the calls that succeeded.
-/

namespace RegisterMachine

/-- What a program asks of the named scopes. -/
inductive ScopeCall where
  | create (scope : Text)
  | destroy (scope : Text)
  | declare (scope name : Text)
  | get (scope name : Text)
  | set (scope name : Text) (value : Int32)
  deriving DecidableEq, Repr

namespace ScopeCall

/-- Whether the call is about the scope as a whole, or changes the variable in it. -/
def concerns (scope name : Text) : ScopeCall → Bool
  | create s | destroy s => s == scope
  | declare s n | set s n _ => s == scope && n == name
  | get _ _ => false

/-- What a call does to the entry of a variable: `none` stands for no scope, `some none` for no
variable in it. -/
def effect (scope name : Text) (entry : Option (Option Int32)) :
    ScopeCall → Option (Option Int32)
  | create s => if s = scope then entry.or (some none) else entry
  | destroy s => if s = scope then none else entry
  | declare s n => if s = scope ∧ n = name then entry.map (·.or (some 0)) else entry
  | get _ _ => entry
  | set s n value => if s = scope ∧ n = name then entry.map (·.map fun _ => value) else entry

end ScopeCall

namespace NamedScopes

def answer : ScopeCall → Action NamedScopes ScopeError (Option Int32)
  | .create scope => do
    create scope
    return none
  | .destroy scope => do
    destroy scope
    return none
  | .declare scope name => do
    declare scope name
    return none
  | .get scope name => fun s => ((s.get scope name).map some, s)
  | .set scope name value => do
    set scope name value
    return none

def after (s : NamedScopes) (c : ScopeCall) : NamedScopes :=
  (answer c s).2

def run (s : NamedScopes) (calls : List ScopeCall) : NamedScopes :=
  calls.foldl after s

def accepts (s : NamedScopes) (c : ScopeCall) : Bool :=
  (answer c s).1.toBool

/-- The calls of a history that succeed, in order. -/
def accepted (s : NamedScopes) : List ScopeCall → List ScopeCall
  | [] => []
  | c :: calls =>
    if s.accepts c then c :: (s.after c).accepted calls else (s.after c).accepted calls

/-- The scopes answer as the history says, from no scopes at the start. `done` are the calls of the
history that succeeded. -/
structure FollowsHistory (s : NamedScopes) (done : List ScopeCall) : Prop where
  /-- The failed calls might as well not have been made. -/
  run_done : run [] done = s
  unknownScope_iff : ∀ scope name, s.get scope name = .error (.unknownScope scope) ↔
    ¬ ∃ before since, done = before ++ .create scope :: since ∧ .destroy scope ∉ since
  unknownVariable_iff : ∀ scope name before since,
    done = before ++ .create scope :: since → .destroy scope ∉ since →
    (s.get scope name = .error (.unknownVariable name) ↔ .declare scope name ∉ since)
  /-- A variable that was not set since its declaration is zero. -/
  get_declared : ∀ scope name before since,
    done = before ++ .declare scope name :: since → .destroy scope ∉ since →
    (∀ value, .set scope name value ∉ since) → s.get scope name = .ok 0
  get_set : ∀ scope name value before between since,
    done = before ++ .declare scope name :: (between ++ .set scope name value :: since) →
    .destroy scope ∉ between → .destroy scope ∉ since →
    (∀ other, .set scope name other ∉ since) → s.get scope name = .ok value
  /-- Calls on other scopes and variables do not matter. -/
  congr : ∀ calls scope name,
    (accepted [] calls).filter (·.concerns scope name) = done.filter (·.concerns scope name) →
    (run [] calls).get scope name = s.get scope name
  /-- What was before a scope was created does not matter. -/
  reborn : ∀ scope name before since, done = before ++ .create scope :: since →
    s.get scope name = (run [] (.create scope :: since)).get scope name
  /-- A call that fails changes nothing. -/
  failed : ∀ c e s', answer c s = (.error e, s') → s' = s

variable {s : NamedScopes} {c : ScopeCall} {calls before since : List ScopeCall}
  {scope name t n : Text} {value : Int32}

/-- What is known of a variable: `none` if there is no such scope, `some none` if the scope does not
declare it. -/
def entry (s : NamedScopes) (scope name : Text) : Option (Option Int32) :=
  (s.lookup scope).map (·.lookup name)

theorem get_eq (s : NamedScopes) (scope name : Text) : s.get scope name =
    match s.entry scope name with
    | none => .error (.unknownScope scope)
    | some none => .error (.unknownVariable name)
    | some (some value) => .ok value := by
  rw [get, find, entry]
  cases s.lookup scope with
  | none => rfl
  | some vars =>
    simp only [bind, Except.bind, Option.map_some]
    cases vars.lookup name <;> rfl

theorem lookup_replace (s : NamedScopes) (scope : Text) (vars : Variables) (t : Text) :
    (replace scope vars s).lookup t =
      if t = scope then (s.lookup t).map fun _ => vars else s.lookup t := by
  induction s with
  | nil => simp [replace]
  | cons e s ih =>
    obtain ⟨n, x⟩ := e
    rw [replace, lookup_cons_eq_ite t n]
    dsimp only
    split
    · rename_i hn
      rw [hn, lookup_cons_eq_ite]
      split <;> rfl
    · rename_i hn
      rw [lookup_cons_eq_ite, ih]
      by_cases ht : t = n
      · rw [if_pos ht, if_pos ht, if_neg (ht ▸ hn)]
      · rw [if_neg ht, if_neg ht]

theorem lookup_filter_ne (s : NamedScopes) (scope t : Text) :
    (s.filter (·.1 ≠ scope)).lookup t = if t = scope then none else s.lookup t := by
  induction s with
  | nil => simp
  | cons e s ih =>
    obtain ⟨n, x⟩ := e
    by_cases hn : n = scope
    · rw [List.filter_cons_of_neg (by simpa using hn), ih, lookup_cons_eq_ite, hn]
      split <;> rfl
    · rw [List.filter_cons_of_pos (by simpa using hn), lookup_cons_eq_ite, lookup_cons_eq_ite, ih]
      by_cases ht : t = n
      · rw [if_pos ht, if_pos ht, if_neg (ht ▸ hn)]
      · rw [if_neg ht, if_neg ht]

/-- An action on the variables of a scope does to an entry of the scope what it does to them. -/
theorem entry_inScope (x : Action Variables ScopeError Unit) :
    (inScope t x s).2.entry scope name =
      if t = scope then (s.lookup t).map fun vars => (x vars).2.lookup name
      else s.entry scope name := by
  cases h : s.lookup t with
  | none =>
    have hfail : inScope t x s = (.error (.unknownScope t), s) := by
      have hfind : s.find t = .error (.unknownScope t) := by simp [find, h]
      rw [inScope, Action.get_bind, hfind]
      rfl
    rw [hfail]
    split
    · rename_i ht
      rw [entry, ← ht, h]
      rfl
    · rfl
  | some vars =>
    have hstate : (inScope t x s).2 = replace t (x vars).2 s := by
      rw [inScope, Action.get_bind, find_eq_ok_iff.2 h]
      rfl
    rw [hstate, entry, lookup_replace]
    by_cases ht : t = scope
    · rw [if_pos ht.symm, if_pos ht, ← ht, h]
      rfl
    · rw [if_neg (Ne.symm ht), if_neg ht, entry]

theorem entry_create : (create t s).2.entry scope name =
    if t = scope then (s.entry scope name).or (some none) else s.entry scope name := by
  cases h : s.lookup t with
  | some vars =>
    have hfail : create t s = (.error (.duplicateScope t), s) := by simp [create, h]
    rw [hfail]
    split
    · rename_i ht
      rw [entry, ← ht, h]
      rfl
    · rfl
  | none =>
    have hcreate : create t s = (.ok (), (t, []) :: s) := by simp [create, h]
    rw [hcreate, entry, entry, lookup_cons_eq_ite]
    by_cases ht : t = scope
    · rw [if_pos ht.symm, if_pos ht, ← ht, h]
      rfl
    · rw [if_neg (Ne.symm ht), if_neg ht]

theorem entry_destroy : (destroy t s).2.entry scope name =
    if t = scope then none else s.entry scope name := by
  cases h : s.lookup t with
  | none =>
    have hfail : destroy t s = (.error (.unknownScope t), s) := by
      have hfind : s.find t = .error (.unknownScope t) := by simp [find, h]
      rw [destroy, Action.get_bind, hfind]
      rfl
    rw [hfail]
    split
    · rename_i ht
      rw [entry, ← ht, h]
      rfl
    · rfl
  | some vars =>
    have hdestroy : destroy t s = (.ok (), s.filter (·.1 ≠ t)) := by
      rw [destroy, Action.get_bind, find_eq_ok_iff.2 h]
      rfl
    rw [hdestroy, entry, lookup_filter_ne]
    by_cases ht : t = scope
    · rw [if_pos ht.symm, if_pos ht, Option.map_none]
    · rw [if_neg (Ne.symm ht), if_neg ht, entry]

theorem entry_declare : (declare t n s).2.entry scope name =
    if t = scope ∧ n = name then (s.entry scope name).map (·.or (some 0))
    else s.entry scope name := by
  rw [declare, entry_inScope, ite_and]
  split
  · rename_i ht
    by_cases hn : n = name
    · simp only [Variables.lookup_declare, if_pos hn, if_pos hn.symm, entry, ht, Option.map_map]
      rfl
    · simp only [Variables.lookup_declare, if_neg hn, if_neg (Ne.symm hn), entry, ht]
  · rfl

theorem entry_set : (set t n value s).2.entry scope name =
    if t = scope ∧ n = name then (s.entry scope name).map (·.map fun _ => value)
    else s.entry scope name := by
  rw [set, entry_inScope, ite_and]
  split
  · rename_i ht
    by_cases hn : n = name
    · simp only [Variables.lookup_set, if_pos hn, if_pos hn.symm, entry, ht, Option.map_map]
      rfl
    · simp only [Variables.lookup_set, if_neg hn, if_neg (Ne.symm hn), entry, ht]
  · rfl

/-- What a call does to what is known of a variable. -/
theorem entry_after (s : NamedScopes) (c : ScopeCall) :
    (s.after c).entry scope name = c.effect scope name (s.entry scope name) := by
  rw [after]
  cases c with
  | create t =>
    rw [answer, Action.bind_pure_apply]
    exact entry_create
  | destroy t =>
    rw [answer, Action.bind_pure_apply]
    exact entry_destroy
  | declare t n =>
    rw [answer, Action.bind_pure_apply]
    exact entry_declare
  | get t n => rfl
  | set t n value =>
    rw [answer, Action.bind_pure_apply]
    exact entry_set

theorem entry_run (s : NamedScopes) (calls : List ScopeCall) :
    (s.run calls).entry scope name =
      calls.foldl (ScopeCall.effect scope name) (s.entry scope name) := by
  induction calls generalizing s with
  | nil => rfl
  | cons c calls ih =>
    rw [List.foldl_cons, ← entry_after]
    exact ih (s.after c)

theorem isAtomic_answer (c : ScopeCall) : (answer c).IsAtomic := by
  cases c with
  | create scope => exact isAtomic_create.bind_pure _
  | destroy scope => exact isAtomic_destroy.bind_pure _
  | declare scope name => exact isAtomic_declare.bind_pure _
  | get scope name =>
    intro s e s' h
    exact (congrArg Prod.snd h).symm
  | set scope name value => exact isAtomic_set.bind_pure _

theorem after_of_not_accepts (h : ¬ s.accepts c) : s.after c = s := by
  unfold accepts at h
  cases hx : answer c s with
  | mk result s' =>
    cases result with
    | ok r =>
      rw [hx] at h
      exact absurd rfl h
    | error e => rw [after, hx, isAtomic_answer c s e s' hx]

theorem run_accepted (s : NamedScopes) (calls : List ScopeCall) :
    s.run (s.accepted calls) = s.run calls := by
  induction calls generalizing s with
  | nil => rfl
  | cons c calls ih =>
    rw [accepted]
    split
    · exact ih (s.after c)
    · rename_i hc
      rw [after_of_not_accepts hc, ih]
      show _ = (s.after c).run calls
      rw [after_of_not_accepts hc]

/-- Every call among the successful ones succeeds where the ones in front of it have been made. -/
theorem accepts_of_accepted (h : s.accepted calls = before ++ c :: since) :
    (s.run before).accepts c := by
  induction calls generalizing s before with
  | nil => simp [accepted] at h
  | cons d calls ih =>
    rw [accepted] at h
    split at h
    · rename_i hd
      cases before with
      | nil =>
        obtain ⟨rfl, -⟩ := List.cons.inj h
        exact hd
      | cons b before =>
        obtain ⟨rfl, htail⟩ := List.cons.inj h
        show ((s.after d).run before).accepts c
        exact ih htail
    · -- a call that fails leaves the scopes as they are, so it is as if it had not been made
      rename_i hd
      rw [after_of_not_accepts hd] at h
      exact ih h

theorem entry_of_accepts_create (h : s.accepts (.create scope)) (name : Text) :
    s.entry scope name = none := by
  rw [accepts, answer, Action.bind_pure_apply] at h
  cases hs : s.lookup scope with
  | none => rw [entry, hs, Option.map_none]
  | some vars => simp [create, hs, Except.map, Except.toBool] at h

theorem entry_of_accepts_declare (h : s.accepts (.declare scope name)) :
    s.entry scope name = some none := by
  rw [accepts, answer, Action.bind_pure_apply, declare, inScope, Action.get_bind] at h
  cases hs : s.lookup scope with
  | none =>
    have hfind : s.find scope = .error (.unknownScope scope) := by simp [find, hs]
    rw [hfind] at h
    cases h
  | some vars =>
    rw [find_eq_ok_iff.2 hs] at h
    cases hd : vars.lookup name with
    | none => rw [entry, hs, Option.map_some, hd]
    | some x =>
      simp [Action.onPart, Variables.declare, hd, Except.mapError, Except.map, Except.toBool] at h

end NamedScopes

namespace ScopeCall

variable {scope name : Text} {value : Int32} {log before since : List ScopeCall}

theorem effect_of_not_concerns {c : ScopeCall} (h : ¬ c.concerns scope name)
    (entry : Option (Option Int32)) : c.effect scope name entry = entry := by
  cases c <;> simp_all [concerns, effect]

/-- Only the calls that concern a variable have an effect on it. -/
theorem foldl_effect_filter (log : List ScopeCall) (entry : Option (Option Int32)) :
    (log.filter (·.concerns scope name)).foldl (effect scope name) entry =
      log.foldl (effect scope name) entry := by
  induction log generalizing entry with
  | nil => rfl
  | cons c log ih =>
    by_cases hc : c.concerns scope name
    · rw [List.filter_cons_of_pos hc, List.foldl_cons, List.foldl_cons, ih]
    · rw [List.filter_cons_of_neg hc, List.foldl_cons, effect_of_not_concerns hc, ih]

/-- Unless its scope is destroyed, a declared variable stays declared, and only `set` changes it. -/
theorem exists_effect {c : ScopeCall} (h : c ≠ destroy scope) (x : Int32) :
    ∃ y, c.effect scope name (some (some x)) = some (some y) ∧
      ((∀ value, c ≠ set scope name value) → y = x) := by
  cases c with
  | create s => exact ⟨x, by simp [effect], fun _ => rfl⟩
  | destroy s =>
    have hs : s ≠ scope := fun hs => h (hs ▸ rfl)
    exact ⟨x, by simp [effect, hs], fun _ => rfl⟩
  | declare s n => exact ⟨x, by simp [effect], fun _ => rfl⟩
  | get s n => exact ⟨x, rfl, fun _ => rfl⟩
  | set s n value =>
    by_cases hs : s = scope ∧ n = name
    · obtain ⟨rfl, rfl⟩ := hs
      exact ⟨value, by simp [effect], fun hset => absurd rfl (hset value)⟩
    · exact ⟨x, by simp [effect, hs], fun _ => rfl⟩

theorem exists_foldl_effect (h : destroy scope ∉ log) (name : Text) (x : Int32) :
    ∃ y, log.foldl (effect scope name) (some (some x)) = some (some y) ∧
      ((∀ value, set scope name value ∉ log) → y = x) := by
  induction log generalizing x with
  | nil => exact ⟨x, rfl, fun _ => rfl⟩
  | cons c log ih =>
    obtain ⟨hc, hlog⟩ := List.ne_and_not_mem_of_not_mem_cons h
    obtain ⟨y, hy, hkeep⟩ := exists_effect (Ne.symm hc) x
    obtain ⟨z, hz, hkeeps⟩ := ih hlog y
    refine ⟨z, by rw [List.foldl_cons, hy, hz], fun hset => ?_⟩
    rw [hkeeps fun value hmem => hset value (List.mem_cons_of_mem c hmem),
      hkeep fun value heq => hset value (heq ▸ List.mem_cons_self)]

/-- A scope declares a variable exactly if that was done since the scope was empty. -/
theorem foldl_effect_eq_undeclared_iff (h : destroy scope ∉ log) :
    log.foldl (effect scope name) (some none) = some none ↔ declare scope name ∉ log := by
  induction log with
  | nil => simp
  | cons c log ih =>
    obtain ⟨hc, hlog⟩ := List.ne_and_not_mem_of_not_mem_cons h
    rw [List.foldl_cons]
    by_cases hdeclare : c = declare scope name
    · have heffect : c.effect scope name (some none) = some (some 0) := by
        simp [hdeclare, effect]
      obtain ⟨y, hy, -⟩ := exists_foldl_effect hlog name 0
      rw [heffect, hy]
      simp [hdeclare]
    · have heffect : c.effect scope name (some none) = some none := by
        cases c with
        | create s => simp [effect]
        | destroy s =>
          have hs : s ≠ scope := fun hs => hc (hs ▸ rfl)
          simp [effect, hs]
        | declare s n =>
          have hs : ¬ (s = scope ∧ n = name) := fun hs => hdeclare (by rw [hs.1, hs.2])
          simp [effect, hs]
        | get s n => rfl
        | set s n value => simp [effect]
      rw [heffect, ih hlog, List.mem_cons, not_or]
      exact (and_iff_right (Ne.symm hdeclare)).symm

theorem effect_eq_none_iff {c : ScopeCall} {entry : Option (Option Int32)} :
    c.effect scope name entry = none ↔
      c = destroy scope ∨ c ≠ create scope ∧ entry = none := by
  cases c with
  | create s => by_cases hs : s = scope <;> simp [effect, hs]
  | destroy s => by_cases hs : s = scope <;> simp [effect, hs]
  | declare s n | set s n value =>
    by_cases hs : s = scope ∧ n = name <;> simp [effect, hs]
  | get s n => simp [effect]

/-- What happened and was not taken back since, one call later. -/
theorem exists_since_concat_iff {x y c : ScopeCall} :
    (∃ before since, log ++ [c] = before ++ x :: since ∧ y ∉ since) ↔
      c = x ∨ c ≠ y ∧ ∃ before since, log = before ++ x :: since ∧ y ∉ since := by
  constructor
  · rintro ⟨before, since, heq, hy⟩
    rcases List.eq_nil_or_concat' since with rfl | ⟨since, d, rfl⟩
    · exact .inl (List.cons.inj (List.append_inj' heq rfl).2).1
    · rw [← List.cons_append, ← List.append_assoc] at heq
      obtain ⟨hlog, hcd⟩ := List.append_inj' heq rfl
      obtain rfl := (List.cons.inj hcd).1
      rw [List.mem_append, not_or] at hy
      exact .inr ⟨fun hc => hy.2 (by simp [hc]), before, since, hlog, hy.1⟩
  · rintro (rfl | ⟨hc, before, since, rfl, hy⟩)
    · exact ⟨log, [], rfl, List.not_mem_nil⟩
    · refine ⟨before, since ++ [c], by simp, ?_⟩
      simp [hy, Ne.symm hc]

/-- There is no scope unless it was created and not destroyed since. -/
theorem foldl_effect_eq_none_iff : log.foldl (effect scope name) none = none ↔
    ¬ ∃ before since, log = before ++ create scope :: since ∧ destroy scope ∉ since := by
  induction log using List.reverseRecOn with
  | nil => simp
  | append_singleton log c ih =>
    rw [List.foldl_append, List.foldl_cons, List.foldl_nil, effect_eq_none_iff, ih,
      exists_since_concat_iff]
    by_cases hc : c = destroy scope
    · simp [hc]
    · simp [hc]

end ScopeCall

namespace NamedScopes

variable {s : NamedScopes} {calls before since : List ScopeCall} {scope name : Text}
  {value : Int32}

/-- The calls of a history that succeed, with no scopes at the start. -/
theorem entry_run_nil (calls : List ScopeCall) : (run [] calls).entry scope name =
    (accepted [] calls).foldl (ScopeCall.effect scope name) none := by
  rw [← run_accepted, entry_run]
  rfl

theorem get_congr {s' : NamedScopes} (h : s.entry scope name = s'.entry scope name) :
    s.get scope name = s'.get scope name := by
  rw [get_eq, get_eq, h]

theorem get_eq_unknownScope_iff :
    s.get scope name = .error (.unknownScope scope) ↔ s.entry scope name = none := by
  rw [get_eq]
  rcases s.entry scope name with _ | _ | value <;> simp

theorem get_eq_unknownVariable_iff :
    s.get scope name = .error (.unknownVariable name) ↔ s.entry scope name = some none := by
  rw [get_eq]
  rcases s.entry scope name with _ | _ | value <;> simp

theorem get_eq_ok_iff :
    s.get scope name = .ok value ↔ s.entry scope name = some (some value) := by
  rw [get_eq]
  rcases s.entry scope name with _ | _ | value <;> simp

/-- A scope is empty when it has been created. -/
theorem entry_run_of_create (h : accepted [] calls = before ++ .create scope :: since) :
    (run [] calls).entry scope name = since.foldl (ScopeCall.effect scope name) (some none) := by
  have hbefore := entry_of_accepts_create (accepts_of_accepted h) name
  rw [entry_run] at hbefore
  rw [← run_accepted, h, entry_run, List.foldl_append, hbefore, List.foldl_cons]
  simp [ScopeCall.effect]

/-- A variable is zero when it has been declared. -/
theorem entry_run_of_declare (h : accepted [] calls = before ++ .declare scope name :: since) :
    (run [] calls).entry scope name =
      since.foldl (ScopeCall.effect scope name) (some (some 0)) := by
  have hbefore := entry_of_accepts_declare (accepts_of_accepted h)
  rw [entry_run] at hbefore
  rw [← run_accepted, h, entry_run, List.foldl_append, hbefore, List.foldl_cons]
  simp [ScopeCall.effect]

/-- Named scopes follow their history. -/
theorem followsHistory_run (calls : List ScopeCall) :
    FollowsHistory (run [] calls) (accepted [] calls) := by
  constructor
  case run_done => exact run_accepted [] calls
  case unknownScope_iff =>
    intro scope name
    rw [get_eq_unknownScope_iff, entry_run_nil, ScopeCall.foldl_effect_eq_none_iff]
  case unknownVariable_iff =>
    intro scope name before since hdone hdestroy
    rw [get_eq_unknownVariable_iff, entry_run_of_create hdone,
      ScopeCall.foldl_effect_eq_undeclared_iff hdestroy]
  case get_declared =>
    intro scope name before since hdone hdestroy hset
    obtain ⟨y, hy, hkeep⟩ := ScopeCall.exists_foldl_effect hdestroy name 0
    rw [get_eq_ok_iff, entry_run_of_declare hdone, hy, hkeep hset]
  case get_set =>
    intro scope name value before between since hdone hbetween hdestroy hset
    obtain ⟨x, hx, -⟩ := ScopeCall.exists_foldl_effect hbetween name 0
    obtain ⟨y, hy, hkeep⟩ := ScopeCall.exists_foldl_effect hdestroy name value
    have heffect : (ScopeCall.set scope name value).effect scope name (some (some x)) =
        some (some value) := by simp [ScopeCall.effect]
    rw [get_eq_ok_iff, entry_run_of_declare hdone, List.foldl_append, hx, List.foldl_cons, heffect,
      hy, hkeep hset]
  case congr =>
    intro others scope name hothers
    apply get_congr
    rw [entry_run_nil, entry_run_nil, ← ScopeCall.foldl_effect_filter, hothers,
      ScopeCall.foldl_effect_filter]
  case reborn =>
    intro scope name before since hdone
    apply get_congr
    rw [entry_run_of_create hdone, entry_run, List.foldl_cons]
    simp [ScopeCall.effect, entry]
  case failed => exact fun c e s' hx => isAtomic_answer c _ e s' hx

/-- A variable of a scope that is created anew is not the one from before. -/
example :
    let s := run [] [.create ['a'], .declare ['a'] ['x'], .set ['a'] ['x'] 5, .create ['b'],
      .declare ['b'] ['x'], .set ['b'] ['x'] 7, .create ['a'], .destroy ['b'], .create ['b']]
    s.get ['a'] ['x'] = .ok 5 ∧ s.get ['b'] ['x'] = .error (.unknownVariable ['x']) :=
  ⟨rfl, rfl⟩

end NamedScopes

end RegisterMachine
