import Mathlib.Data.List.Infix
import Mathlib.Data.List.Induction
import RegisterMachine.Proofs.Machine.Atomicity
import RegisterMachine.Proofs.Machine.Variables

/-!
# Brackets of frames

A program pushes a frame, works with it, and pops it. Frames are counted from the outermost one
(`StackScopes.frame?`), so a number stands for the same frame as long as it is there. A step does
nothing to a frame below the innermost one, except that `set` changes a variable in it that no
frame above declares (`StackScopes.value?_after`). Between a push and the pop that takes its frame
away, the frames below therefore keep their number and their names, and each variable has the value
that was last written through to it (`StackScopes.keepsFrames_of_isBalanced`).
-/

namespace RegisterMachine

/-- What a program asks of the stack of frames. -/
inductive FrameCall where
  | push
  | pop
  | declare (name : Text)
  | get (name : Text)
  | set (name : Text) (value : Int32)
  deriving DecidableEq, Repr

/-- Every frame that is popped was pushed before, and every frame that is pushed is popped. -/
structure FrameCall.IsBalanced (calls : List FrameCall) : Prop where
  le : ∀ before, before <+: calls → before.count .pop ≤ before.count .push
  eq : calls.count .pop = calls.count .push

instance (calls : List FrameCall) : Decidable (FrameCall.IsBalanced calls) :=
  decidable_of_iff ((∀ before ∈ calls.inits, before.count .pop ≤ before.count .push) ∧
      calls.count .pop = calls.count .push)
    ⟨fun h => ⟨fun before hb => h.1 before ((List.mem_inits before calls).2 hb), h.2⟩,
      fun h => ⟨fun before hb => h.le before ((List.mem_inits before calls).1 hb), h.eq⟩⟩

namespace StackScopes

def answer : FrameCall → Action StackScopes ScopeError (Option Int32)
  | .push => fun s => (.ok none, s.push)
  | .pop => do
    pop
    return none
  | .declare name => do
    declare name
    return none
  | .get name => fun s => ((s.get name).map some, s)
  | .set name value => do
    set name value
    return none

def after (s : StackScopes) (c : FrameCall) : StackScopes :=
  (answer c s).2

def run (s : StackScopes) (calls : List FrameCall) : StackScopes :=
  calls.foldl after s

/-- The frame with the given number, counted from the outermost one. -/
def frame? (s : StackScopes) (j : Nat) : Option Variables :=
  s.reverse[j]?

/-- The value of a variable in the frame with the given number. -/
def value? (s : StackScopes) (j : Nat) (name : Text) : Option Int32 :=
  (s.frame? j).bind (·.lookup name)

/-- The frames above the one with the given number. -/
def above (s : StackScopes) (j : Nat) : StackScopes :=
  s.take (s.length - (j + 1))

/-- No frame above the one with the given number declares the name. -/
def IsVisible (s : StackScopes) (j : Nat) (name : Text) : Prop :=
  ∀ frame ∈ s.above j, frame.lookup name = none

instance (s : StackScopes) (j : Nat) (name : Text) : Decidable (s.IsVisible j name) :=
  inferInstanceAs (Decidable (∀ frame ∈ s.above j, frame.lookup name = none))

/-- The value that a call writes to a variable of a frame: it is a `set` of that name which
succeeds, and no frame above declares the name. -/
def written? (s : StackScopes) (j : Nat) (name : Text) : FrameCall → Option Int32
  | .set n value =>
    if n = name ∧ (answer (.set n value) s).1.toBool ∧ s.IsVisible j name then some value else none
  | _ => none

/-- All values that a sequence of calls writes to a variable of a frame, in order. -/
def written (s : StackScopes) (j : Nat) (name : Text) : List FrameCall → List Int32
  | [] => []
  | c :: calls => (s.written? j name c).toList ++ (s.after c).written j name calls

/-- What a sequence of calls leaves of the frames that were there before. -/
structure KeepsFrames (s : StackScopes) (calls : List FrameCall) : Prop where
  length : (s.run calls).length = s.length
  declares : ∀ j name, ((s.run calls).value? j name).isSome ↔ (s.value? j name).isSome
  /-- A variable has the value that was last written to it, if one was. -/
  value : ∀ j name, (s.run calls).value? j name =
    (s.value? j name).map fun value => (s.written j name calls).getLast?.getD value
  /-- All the time the innermost frame that declares a name decides. -/
  get : ∀ before, before <+: calls → ∀ name value, (s.run before).get name = .ok value ↔
    ∃ inner frame outer, s.run before = inner ++ frame :: outer ∧
      frame.lookup name = some value ∧ ∀ f ∈ inner, f.lookup name = none
  /-- A call that fails changes nothing. -/
  failed : ∀ before c, before ++ [c] <+: calls → ∀ e, (answer c (s.run before)).1 = .error e →
    s.run (before ++ [c]) = s.run before

variable {s s' : StackScopes} {frame : Variables} {c : FrameCall} {calls before : List FrameCall}
  {j : Nat} {name n : Text} {value : Int32}

theorem frame?_of_le (h : s.length ≤ j) : s.frame? j = none :=
  List.getElem?_eq_none (by rwa [List.length_reverse])

theorem frame?_cons_of_lt (h : j < s.length) : frame? (frame :: s) j = s.frame? j := by
  rw [frame?, List.reverse_cons, List.getElem?_append_left (by rwa [List.length_reverse]), frame?]

theorem frame?_cons_length : frame? (frame :: s) s.length = some frame := by
  rw [frame?, List.reverse_cons, List.getElem?_append_right (by simp)]
  simp

theorem value?_of_le (h : s.length ≤ j) : s.value? j name = none := by
  rw [value?, frame?_of_le h, Option.bind_none]

theorem value?_cons_of_lt (h : j < s.length) : value? (frame :: s) j name = s.value? j name := by
  rw [value?, frame?_cons_of_lt h, value?]

theorem value?_cons_length : value? (frame :: s) s.length name = frame.lookup name := by
  rw [value?, frame?_cons_length, Option.bind_some]

theorem above_cons (h : j < s.length) : above (frame :: s) j = frame :: s.above j := by
  have hlength : (frame :: s).length - (j + 1) = s.length - (j + 1) + 1 := by
    rw [List.length_cons]
    omega
  rw [above, hlength, List.take_succ_cons, above]

theorem isVisible_cons_iff (h : j < s.length) :
    IsVisible (frame :: s) j name ↔ frame.lookup name = none ∧ s.IsVisible j name := by
  rw [IsVisible, above_cons h, List.forall_mem_cons, IsVisible]

theorem isVisible_top (h : s.length ≤ j + 1) : s.IsVisible j name := by
  have hlength : s.length - (j + 1) = 0 := by omega
  rw [IsVisible, above, hlength, List.take_zero]
  exact nofun

theorem length_assign? (h : s.assign? name value = some s') : s'.length = s.length := by
  induction s generalizing s' with
  | nil => cases h
  | cons frame s ih =>
    rw [assign?] at h
    split at h
    · obtain rfl := Option.some.inj h
      rfl
    · obtain ⟨outer, houter, rfl⟩ := Option.map_eq_some_iff.1 h
      rw [List.length_cons, List.length_cons, ih houter]

/-- An assignment changes the one variable of its name that is declared and not hidden. -/
theorem value?_assign? (h : s.assign? name value = some s') (j : Nat) (n : Text) :
    s'.value? j n = if n = name ∧ s.IsVisible j name then (s.value? j n).map fun _ => value
      else s.value? j n := by
  induction s generalizing s' with
  | nil => cases h
  | cons frame s ih =>
    have hlength : s'.length = s.length + 1 := length_assign? h
    rcases Nat.lt_or_ge s.length j with hj | hj
    · rw [value?_of_le (s := s') (by omega), value?_of_le (s := frame :: s) hj]
      simp
    rw [assign?] at h
    split at h
    · rename_i frame' hframe
      obtain rfl := Option.some.inj h
      have hdeclared : frame.lookup name ≠ none := fun hnone => by
        rw [Variables.assign?_eq_none_iff.2 hnone] at hframe
        cases hframe
      -- the innermost frame declares the name, and hides it in the frames below
      rcases Nat.lt_or_eq_of_le hj with hj | rfl
      · rw [value?_cons_of_lt hj, value?_cons_of_lt hj,
          if_neg fun hvisible => hdeclared ((isVisible_cons_iff hj).1 hvisible.2).1]
      · rw [value?_cons_length, value?_cons_length, Variables.lookup_assign? hframe]
        by_cases hn : n = name
        · obtain ⟨x, hx⟩ := Option.ne_none_iff_exists'.1 hdeclared
          rw [if_pos hn, if_pos ⟨hn, isVisible_top (Nat.le_refl _)⟩, hn, hx]
          rfl
        · rw [if_neg hn, if_neg fun hvisible => hn hvisible.1]
    · rename_i hframe
      obtain ⟨outer, houter, rfl⟩ := Option.map_eq_some_iff.1 h
      -- the innermost frame does not declare the name, and the search goes on below
      have hundeclared := Variables.assign?_eq_none_iff.1 hframe
      have houterLength := length_assign? houter
      rcases Nat.lt_or_eq_of_le hj with hj | rfl
      · rw [value?_cons_of_lt (houterLength ▸ hj), value?_cons_of_lt hj, ih houter]
        simp only [isVisible_cons_iff hj, hundeclared, true_and]
      · rw [← houterLength, value?_cons_length, houterLength, value?_cons_length]
        split
        · rename_i hn
          rw [hn.1, hundeclared]
          rfl
        · rfl

theorem isAtomic_answer (c : FrameCall) : (answer c).IsAtomic := by
  cases c with
  | push => exact nofun
  | pop => exact isAtomic_pop.bind_pure _
  | declare name => exact isAtomic_declare.bind_pure _
  | get name =>
    intro s e s' h
    exact (congrArg Prod.snd h).symm
  | set name value => exact isAtomic_set.bind_pure _

theorem after_of_answer_failed {e : ScopeError} (h : (answer c s).1 = .error e) : s.after c = s :=
  isAtomic_answer c s e _ (Prod.ext h rfl)

theorem declare_eq_ok_iff : declare name s = (.ok (), s') ↔
    ∃ frame outer, s = frame :: outer ∧ frame.lookup name = none ∧
      s' = ((name, 0) :: frame) :: outer := by
  cases s with
  | nil => simp [declare]
  | cons frame outer =>
    rw [declare, Action.get_bind]
    dsimp only
    rw [Action.onPart_eq_ok_iff]
    constructor
    · rintro ⟨frame', hframe, rfl⟩
      obtain ⟨hnone, rfl⟩ := Variables.declare_eq_ok_iff.1 hframe
      exact ⟨frame, outer, rfl, hnone, rfl⟩
    · rintro ⟨_, _, heq, hnone, rfl⟩
      obtain ⟨rfl, rfl⟩ := List.cons.inj heq
      exact ⟨_, Variables.declare_eq_ok_iff.2 ⟨hnone, rfl⟩, rfl⟩

theorem set_of_assign? (h : s.assign? name value = some s') :
    set name value s = (.ok (), s') := by
  cases s with
  | nil => cases h
  | cons frame outer => simp [set, h]

/-- A `set` fails exactly if no frame declares the name. -/
theorem exists_set_eq_error (h : s.assign? name value = none) :
    ∃ e, set name value s = (.error e, s) := by
  cases s with
  | nil => exact ⟨.noScope, rfl⟩
  | cons frame outer => exact ⟨.unknownVariable name, by simp [set, h]⟩

theorem after_pop : s.after .pop = s.tail := by
  cases s <;> rfl

theorem after_declare (s : StackScopes) (name : Text) : s.after (.declare name) = s ∨
    ∃ frame outer, s = frame :: outer ∧
      s.after (.declare name) = ((name, 0) :: frame) :: outer := by
  rw [after, answer, Action.bind_pure_apply]
  cases h : declare name s with
  | mk result s' =>
    cases result with
    | error e => exact .inl (isAtomic_declare s e s' h)
    | ok =>
      obtain ⟨frame, outer, hs, -, rfl⟩ := declare_eq_ok_iff.1 h
      exact .inr ⟨frame, outer, hs, rfl⟩

theorem after_get : s.after (.get name) = s := rfl

theorem after_set : s.after (.set name value) = (s.assign? name value).getD s := by
  rw [after, answer, Action.bind_pure_apply]
  cases h : s.assign? name value with
  | none =>
    obtain ⟨e, hset⟩ := exists_set_eq_error h
    rw [hset]
    rfl
  | some s' =>
    rw [set_of_assign? h]
    rfl

theorem written?_set : s.written? j n (.set name value) =
    if name = n ∧ (s.assign? name value).isSome ∧ s.IsVisible j n then some value else none := by
  rw [written?, answer, Action.bind_pure_apply]
  cases h : s.assign? name value with
  | none =>
    obtain ⟨e, hset⟩ := exists_set_eq_error h
    rw [hset]
    rfl
  | some s' =>
    rw [set_of_assign? h]
    rfl

/-- A push adds a frame, and a pop takes one away if there is one. -/
theorem length_after (h : c = .pop → s ≠ []) :
    (s.after c).length + [c].count .pop = s.length + [c].count .push := by
  cases c with
  | push => rfl
  | pop =>
    obtain ⟨frame, outer, rfl⟩ := List.exists_cons_of_ne_nil (h rfl)
    rfl
  | declare name =>
    rcases after_declare s name with hafter | ⟨frame, outer, rfl, hafter⟩
    · rw [hafter]
      rfl
    · rw [hafter]
      rfl
  | get name =>
    rw [after_get]
    rfl
  | set name value =>
    rw [after_set]
    cases hs : s.assign? name value with
    | none => rfl
    | some s' => exact length_assign? hs

/-- What a call does to a frame below the innermost one. -/
theorem value?_after (h : c = .push ∨ j + 1 < s.length) (n : Text) :
    (s.after c).value? j n = (s.value? j n).map fun value => (s.written? j n c).getD value := by
  cases c with
  | push =>
    show value? ([] :: s) j n = (s.value? j n).map fun value => value
    rw [Option.map_id']
    rcases Nat.lt_trichotomy j s.length with hj | rfl | hj
    · exact value?_cons_of_lt hj
    · rw [value?_cons_length, value?_of_le (Nat.le_refl _)]
      rfl
    · rw [value?_of_le (s := [] :: s) hj, value?_of_le (Nat.le_of_lt hj)]
  | pop =>
    have hlt : j + 1 < s.length := h.resolve_left nofun
    cases s with
    | nil => cases hlt
    | cons frame outer =>
      show value? outer j n = (value? (frame :: outer) j n).map fun value => value
      rw [Option.map_id', value?_cons_of_lt (Nat.lt_of_succ_lt_succ hlt)]
  | declare name =>
    have hlt : j + 1 < s.length := h.resolve_left nofun
    show _ = (s.value? j n).map fun value => value
    rw [Option.map_id']
    rcases after_declare s name with hafter | ⟨frame, outer, rfl, hafter⟩
    · rw [hafter]
    · have hj : j < outer.length := Nat.lt_of_succ_lt_succ hlt
      rw [hafter, value?_cons_of_lt hj, value?_cons_of_lt hj]
  | get name =>
    rw [after_get]
    exact Option.map_id'.symm
  | set name value =>
    rw [after_set, written?_set]
    cases hs : s.assign? name value with
    | none => simp
    | some s' =>
      rw [Option.getD_some, value?_assign? hs]
      by_cases hwritten : n = name ∧ s.IsVisible j name
      · obtain ⟨rfl, hvisible⟩ := hwritten
        rw [if_pos ⟨rfl, hvisible⟩, if_pos ⟨rfl, rfl, hvisible⟩]
        rfl
      · have hnot : ¬ (name = n ∧ (some s').isSome ∧ s.IsVisible j n) := by
          rintro ⟨rfl, -, hvisible⟩
          exact hwritten ⟨rfl, hvisible⟩
        rw [if_neg hwritten, if_neg hnot]
        exact Option.map_id'.symm

theorem run_concat : s.run (calls ++ [c]) = (s.run calls).after c :=
  List.foldl_append

/-- What calls do to a frame that is below the innermost one whenever there is no push. -/
theorem value?_run
    (h : ∀ before c, before ++ [c] <+: calls → c = .push ∨ j + 1 < (s.run before).length)
    (n : Text) : (s.run calls).value? j n =
      (s.value? j n).map fun value => (s.written j n calls).getLast?.getD value := by
  induction calls generalizing s with
  | nil => exact Option.map_id'.symm
  | cons c calls ih =>
    have hc : c = .push ∨ j + 1 < s.length := h [] c (by simp)
    have hcalls : ∀ before d, before ++ [d] <+: calls →
        d = .push ∨ j + 1 < ((s.after c).run before).length := fun before d hd =>
      h (c :: before) d (by simpa using hd)
    show ((s.after c).run calls).value? j n = _
    rw [ih hcalls, value?_after hc, Option.map_map]
    congr 1
    funext value
    rw [written, List.getLast?_append]
    cases s.written? j n c with
    | none => simp
    | some x => cases (written (s.after c) j n calls).getLast? <;> rfl

/-- The frames are those from the start, with one more for each push and one less for each pop. -/
theorem length_run (h : ∀ before, before <+: calls → before.count .pop ≤ before.count .push) :
    (s.run calls).length + calls.count .pop = s.length + calls.count .push := by
  induction calls using List.reverseRecOn with
  | nil => rfl
  | append_singleton calls c ih =>
    have hcalls := ih fun before hb => h before (hb.trans (List.prefix_append calls [c]))
    have hall := h (calls ++ [c]) (List.prefix_refl _)
    rw [List.count_append, List.count_append] at hall
    have hc : c = .pop → s.run calls ≠ [] := by
      rintro rfl hnil
      rw [hnil] at hcalls
      have hpop : [FrameCall.pop].count .pop = 1 := rfl
      have hpush : [FrameCall.pop].count .push = 0 := rfl
      have hlength : ([] : StackScopes).length = 0 := rfl
      omega
    have hstep := length_after hc
    rw [run_concat, List.count_append, List.count_append]
    omega

theorem get_eq_ok_iff : s.get name = .ok value ↔
    ∃ inner frame outer, s = inner ++ frame :: outer ∧
      frame.lookup name = some value ∧ ∀ f ∈ inner, f.lookup name = none := by
  rw [← List.findSome?_eq_some_iff]
  cases s with
  | nil => simp [get]
  | cons frame outer =>
    unfold get
    cases List.findSome? (List.lookup name) (frame :: outer) <;> simp

section Bracket

variable {inner : List FrameCall} (h : FrameCall.IsBalanced inner)
include h

/-- Between a push and its pop there are as many frames more as pushes are not matched. -/
theorem length_run_of_isBalanced (hb : before <+: inner) :
    (s.run (.push :: before)).length + before.count .pop = s.length + 1 + before.count .push :=
  length_run (s := s.push) fun b hle => h.le b (hle.trans hb)

/-- Whatever is called between a push and its pop, there is a frame above those from before. -/
theorem length_lt_of_isBalanced (hc : before ++ [c] <+: .push :: (inner ++ [.pop])) :
    c = .push ∨ s.length < (s.run before).length := by
  cases before with
  | nil => exact .inl (List.cons_prefix_cons.1 hc).1
  | cons d before =>
    obtain ⟨rfl, htail⟩ := List.cons_prefix_cons.1 hc
    have hb : before <+: inner := by
      rcases List.prefix_concat_iff.1 htail with heq | hle
      · rw [(List.append_inj' heq rfl).1]
      · exact (List.prefix_append before [c]).trans hle
    have hlength := length_run_of_isBalanced (s := s) h hb
    have hle := h.le before hb
    right
    omega

theorem length_run_bracket : (s.run (.push :: (inner ++ [.pop]))).length = s.length := by
  have hinner := length_run_of_isBalanced (s := s) h (List.prefix_refl inner)
  rw [h.eq] at hinner
  rw [← List.cons_append, run_concat, after_pop, List.length_tail]
  omega

theorem value?_run_bracket (j : Nat) (name : Text) :
    (s.run (.push :: (inner ++ [.pop]))).value? j name = (s.value? j name).map fun value =>
      (s.written j name (.push :: (inner ++ [.pop]))).getLast?.getD value := by
  rcases Nat.lt_or_ge j s.length with hj | hj
  · apply value?_run
    intro before c hc
    exact (length_lt_of_isBalanced h hc).imp_right fun hlt => Nat.lt_of_le_of_lt hj hlt
  · rw [value?_of_le (Nat.le_trans (Nat.le_of_eq (length_run_bracket h)) hj), value?_of_le hj]
    rfl

end Bracket

/-- A frame is pushed, used and popped, and the frames below it come back. -/
theorem keepsFrames_of_isBalanced (s : StackScopes) {inner : List FrameCall}
    (h : FrameCall.IsBalanced inner) : s.KeepsFrames (.push :: (inner ++ [.pop])) := by
  constructor
  case length => exact length_run_bracket h
  case declares =>
    intro j name
    rw [value?_run_bracket h, Option.isSome_map]
  case value => exact value?_run_bracket h
  case get => exact fun before _ name value => get_eq_ok_iff
  case failed =>
    intro before c _ e he
    rw [run_concat, after_of_answer_failed he]

/-- In the pushed frame `x` is hidden by a variable of its own, but not at first: below, `x` has the
value that was written before. -/
theorem keepsFrames_of_isBalanced_hidden :
    let s : StackScopes := [[(['x'], 1)], [(['y'], 1), (['x'], 0)]]
    let inner : List FrameCall :=
      [.set ['x'] 5, .declare ['x'], .set ['x'] 2, .push, .set ['y'] 3, .pop]
    let calls : List FrameCall := .push :: (inner ++ [.pop])
    FrameCall.IsBalanced inner ∧ s.KeepsFrames calls ∧
      (s.run calls).value? 1 ['x'] = some 5 ∧ (s.run calls).value? 0 ['x'] = some 0 ∧
      (s.run calls).value? 0 ['y'] = some 3 := by
  intro s inner calls
  have h : FrameCall.IsBalanced inner := by decide
  have hkeeps : s.KeepsFrames calls := keepsFrames_of_isBalanced s h
  refine ⟨h, hkeeps, ?_, ?_, ?_⟩
  · rw [hkeeps.value]
    decide
  · rw [hkeeps.value]
    decide
  · rw [hkeeps.value]
    decide

end StackScopes

end RegisterMachine
