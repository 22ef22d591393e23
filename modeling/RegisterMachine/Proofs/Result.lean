import Mathlib.Data.List.Forall2

/-!
# Results

How a computation in several parts succeeds or fails. Every pass of the assembler and every
instruction is written with `do`; these lemmas take such a computation apart.
-/

namespace RegisterMachine

variable {ε α β : Type}

theorem bind_eq_ok_iff {x : Except ε α} {f : α → Except ε β} {b : β} :
    x >>= f = .ok b ↔ ∃ a, x = .ok a ∧ f a = .ok b := by
  cases x <;> simp [bind, Except.bind]

theorem bind_eq_error_iff {x : Except ε α} {f : α → Except ε β} {e : ε} :
    x >>= f = .error e ↔ x = .error e ∨ ∃ a, x = .ok a ∧ f a = .error e := by
  cases x <;> simp [bind, Except.bind]

theorem map_eq_ok_iff {x : Except ε α} {f : α → β} {b : β} :
    x.map f = .ok b ↔ ∃ a, x = .ok a ∧ f a = b := by
  cases x <;> simp [Except.map]

theorem map_eq_error_iff {x : Except ε α} {f : α → β} {e : ε} :
    x.map f = .error e ↔ x = .error e := by
  cases x <;> simp [Except.map]

@[simp] theorem pure_eq_ok_iff {a b : α} : (pure a : Except ε α) = .ok b ↔ a = b := by
  simp [pure, Except.pure]

@[simp] theorem throw_ne_ok {e : ε} {b : α} : (throw e : Except ε α) ≠ .ok b := by
  simp [throw, throwThe, MonadExceptOf.throw]

/-- If `x` fails, then with an error that has the property `P`. -/
def FailsWith (P : ε → Prop) (x : Except ε α) : Prop :=
  ∀ e, x = .error e → P e

namespace FailsWith

variable {P : ε → Prop}

theorem ok (a : α) : FailsWith P (.ok a) :=
  nofun

theorem error {e : ε} (h : P e) : FailsWith P (.error e : Except ε α) := by
  intro e' heq
  cases heq
  exact h

theorem bind {x : Except ε α} {f : α → Except ε β} (hx : FailsWith P x)
    (hf : ∀ a, FailsWith P (f a)) : FailsWith P (x >>= f) := by
  intro e h
  rcases bind_eq_error_iff.1 h with h | ⟨a, -, h⟩
  · exact hx e h
  · exact hf a e h

end FailsWith

/-- A list is computed member by member, in order. -/
theorem forall₂_of_mapM_eq_ok {f : α → Except ε β} {xs : List α} {ys : List β}
    (h : xs.mapM f = .ok ys) : List.Forall₂ (fun x y => f x = .ok y) xs ys := by
  induction xs generalizing ys with
  | nil =>
    obtain rfl := pure_eq_ok_iff.1 h
    exact .nil
  | cons x xs ih =>
    rw [List.mapM_cons] at h
    obtain ⟨y, hy, h⟩ := bind_eq_ok_iff.1 h
    obtain ⟨ys', hys, h⟩ := bind_eq_ok_iff.1 h
    obtain rfl := pure_eq_ok_iff.1 h
    exact .cons hy (ih hys)

theorem mapM_eq_ok_of_forall {f : α → Except ε β} {g : α → β} {xs : List α}
    (h : ∀ x ∈ xs, f x = .ok (g x)) : xs.mapM f = .ok (xs.map g) := by
  induction xs with
  | nil => rfl
  | cons x xs ih =>
    obtain ⟨hx, hxs⟩ := List.forall_mem_cons.1 h
    rw [List.mapM_cons]
    exact bind_eq_ok_iff.2 ⟨g x, hx, bind_eq_ok_iff.2 ⟨xs.map g, ih hxs, rfl⟩⟩

theorem mapM_set {f : α → Except ε β} {xs : List α} {ys : List β} {i : Nat} {x : α} {y : β}
    (h : xs.mapM f = .ok ys) (hx : f x = .ok y) : (xs.set i x).mapM f = .ok (ys.set i y) := by
  induction xs generalizing ys i with
  | nil =>
    obtain rfl := pure_eq_ok_iff.1 h
    rfl
  | cons x' xs ih =>
    rw [List.mapM_cons] at h
    obtain ⟨y', hy', h⟩ := bind_eq_ok_iff.1 h
    obtain ⟨ys', hys, h⟩ := bind_eq_ok_iff.1 h
    obtain rfl := pure_eq_ok_iff.1 h
    cases i with
    | zero =>
      rw [List.set_cons_zero, List.mapM_cons]
      exact bind_eq_ok_iff.2 ⟨y, hx, bind_eq_ok_iff.2 ⟨ys', hys, rfl⟩⟩
    | succ i =>
      rw [List.set_cons_succ, List.mapM_cons]
      exact bind_eq_ok_iff.2 ⟨y', hy', bind_eq_ok_iff.2 ⟨ys'.set i y, ih hys, rfl⟩⟩

theorem foldlM_set {f : β → α → Except ε β} {xs : List α} {b : β} {i : Nat} {x x' : α}
    (hx : xs[i]? = some x) (h : ∀ b, f b x' = f b x) :
    (xs.set i x').foldlM f b = xs.foldlM f b := by
  induction xs generalizing b i with
  | nil => rfl
  | cons y xs ih =>
    cases i with
    | zero =>
      obtain rfl := Option.some.inj hx
      rw [List.set_cons_zero, List.foldlM_cons, List.foldlM_cons, h]
    | succ i =>
      rw [List.set_cons_succ, List.foldlM_cons, List.foldlM_cons]
      exact congrArg (f b y >>= ·) (funext fun b' => ih (by simpa using hx))

theorem exists_mem_of_forall₂ {R : α → β → Prop} {xs : List α} {ys : List β}
    (h : List.Forall₂ R xs ys) {y : β} (hy : y ∈ ys) : ∃ x ∈ xs, R x y := by
  induction h with
  | nil => cases hy
  | cons hxy _ ih =>
    rcases List.mem_cons.1 hy with rfl | hy
    · exact ⟨_, List.mem_cons_self, hxy⟩
    · obtain ⟨x, hx, hr⟩ := ih hy
      exact ⟨x, List.mem_cons_of_mem _ hx, hr⟩

theorem rel_of_getElem? {R : α → β → Prop} {xs : List α} {ys : List β}
    (h : List.Forall₂ R xs ys) {i : Nat} {x : α} {y : β} (hx : xs[i]? = some x)
    (hy : ys[i]? = some y) : R x y :=
  List.forall₂_zip h (List.mem_of_getElem? (List.getElem?_zip_eq_some.2 ⟨hx, hy⟩))

theorem forall₂_mem {R : α → β → Prop} {xs : List α} {ys : List β} (h : List.Forall₂ R xs ys) :
    List.Forall₂ (fun x y => x ∈ xs ∧ y ∈ ys ∧ R x y) xs ys := by
  refine List.forall₂_iff_zip.2 ⟨h.length_eq, fun {x y} hmem => ?_⟩
  obtain ⟨hx, hy⟩ := List.of_mem_zip hmem
  exact ⟨hx, hy, List.forall₂_zip h hmem⟩

theorem forall₂_iff_map_eq {γ : Type} {f : α → γ} {g : β → γ} {xs : List α} {ys : List β} :
    List.Forall₂ (fun x y => f x = g y) xs ys ↔ xs.map f = ys.map g := by
  rw [← List.forall₂_eq_eq_eq, List.forall₂_map_left_iff, List.forall₂_map_right_iff]

/-- Where two lists are related to a third one, what relates the members relates the lists. -/
theorem exists_forall₂ {γ δ : Type} {R : α → β → Prop} {S : α → γ → Prop} {T : γ → δ → Prop}
    {Q : β → δ → Prop} {xs : List α} {ys : List β} {zs : List γ}
    (hstep : ∀ x y z, R x y → S x z → ∃ w, T z w ∧ Q y w) (hR : List.Forall₂ R xs ys)
    (hS : List.Forall₂ S xs zs) : ∃ ws, List.Forall₂ T zs ws ∧ List.Forall₂ Q ys ws := by
  induction hR generalizing zs with
  | nil =>
    cases hS
    exact ⟨[], .nil, .nil⟩
  | cons hR _ ih =>
    obtain _ | ⟨hS, hzs⟩ := hS
    obtain ⟨w, hT, hQ⟩ := hstep _ _ _ hR hS
    obtain ⟨ws, hTs, hQs⟩ := ih hzs
    exact ⟨w :: ws, .cons hT hTs, .cons hQ hQs⟩

theorem exists_mem_of_mapM_eq_error {f : α → Except ε β} {xs : List α} {e : ε}
    (h : xs.mapM f = .error e) : ∃ x ∈ xs, f x = .error e := by
  induction xs with
  | nil => simp [pure, Except.pure] at h
  | cons x xs ih =>
    rw [List.mapM_cons] at h
    rcases bind_eq_error_iff.1 h with h | ⟨y, -, h⟩
    · exact ⟨x, List.mem_cons_self, h⟩
    rcases bind_eq_error_iff.1 h with h | ⟨ys, -, h⟩
    · obtain ⟨z, hz, hf⟩ := ih h
      exact ⟨z, List.mem_cons_of_mem _ hz, hf⟩
    · cases h

/-- What every step of a fold keeps, the fold keeps. -/
theorem foldlM_induction {P : β → Prop} {f : β → α → Except ε β} {xs : List α} {b b' : β}
    (hstep : ∀ b x b', x ∈ xs → P b → f b x = .ok b' → P b') (hb : P b)
    (h : xs.foldlM f b = .ok b') : P b' := by
  induction xs generalizing b with
  | nil =>
    obtain rfl := pure_eq_ok_iff.1 h
    exact hb
  | cons x xs ih =>
    rw [List.foldlM_cons] at h
    obtain ⟨b₁, hx, h⟩ := bind_eq_ok_iff.1 h
    apply ih _ _ h
    · intro b y b' hy
      exact hstep b y b' (List.mem_cons_of_mem _ hy)
    · exact hstep b x b₁ List.mem_cons_self hb hx

theorem exists_mem_of_foldlM_eq_error {f : β → α → Except ε β} {xs : List α} {b : β} {e : ε}
    (h : xs.foldlM f b = .error e) : ∃ b', ∃ x ∈ xs, f b' x = .error e := by
  induction xs generalizing b with
  | nil => simp [pure, Except.pure] at h
  | cons x xs ih =>
    rw [List.foldlM_cons] at h
    rcases bind_eq_error_iff.1 h with h | ⟨b₁, -, h⟩
    · exact ⟨b, x, List.mem_cons_self, h⟩
    · obtain ⟨b', y, hy, hf⟩ := ih h
      exact ⟨b', y, List.mem_cons_of_mem _ hy, hf⟩

end RegisterMachine
