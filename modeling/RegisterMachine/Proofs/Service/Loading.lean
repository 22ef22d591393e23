import RegisterMachine.Proofs.Result
import RegisterMachine.Proofs.Service.Calls

/-!
# Loading plugins

Loading a list of plugins comes to putting entries in place one after the other: the name of a
plugin, then its services, then the next plugin. It goes well as long as no entry clashes with an
earlier one, and the registry then holds exactly what was loaded; otherwise the error is the one of
the first entry that clashes (`Registry.loadsExactly`).
-/

namespace RegisterMachine

/-- What loading puts in place in one go. -/
inductive Entry where
  | plugin (name : String)
  | service (e : Registration)

namespace Entry

def name? : Entry → Option String
  | plugin name => some name
  | service _ => none

def registration? : Entry → Option Registration
  | plugin _ => none
  | service e => some e

/-- The second entry cannot be put in place behind the first one, for the given reason: both are
plugins of one name, or services with one number, which the plugin of the first keeps. -/
inductive Clashes : Entry → Entry → SetupError → Prop
  | plugin (name : String) : Clashes (.plugin name) (.plugin name) (.duplicatePlugin name)
  | service {e e' : Registration} (h : e.service.id = e'.service.id) :
    Clashes (.service e) (.service e')
      (.duplicateSyscall e'.service.id e'.service.name e'.plugin e.plugin)

theorem clashes_plugin_iff {a b : String} {e : SetupError} :
    Clashes (.plugin a) (.plugin b) e ↔ a = b ∧ e = .duplicatePlugin b := by
  constructor
  · rintro ⟨⟩
    exact ⟨rfl, rfl⟩
  · rintro ⟨rfl, rfl⟩
    exact .plugin a

theorem clashes_service_iff {a b : Registration} {e : SetupError} :
    Clashes (.service a) (.service b) e ↔ a.service.id = b.service.id ∧
      e = .duplicateSyscall b.service.id b.service.name b.plugin a.plugin := by
  constructor
  · rintro (_ | h)
    exact ⟨h, rfl⟩
  · rintro ⟨h, rfl⟩
    exact .service h

/-- No entry clashes with an earlier one. -/
def ClashFree (xs : List Entry) : Prop :=
  xs.Pairwise fun y x => ∀ e, ¬ Clashes y x e

end Entry

/-- The entries of a plugin: its name, then its services. -/
def Plugin.entries (p : Plugin) : List Entry :=
  .plugin p.name :: p.services.map fun s => .service ⟨p.name, s⟩

/-- The error of the first entry in load order that clashes with an earlier one. -/
def IsFirstClash (ps : List Plugin) (e : SetupError) : Prop :=
  ∃ before x after, ps.flatMap Plugin.entries = before ++ x :: after ∧ Entry.ClashFree before ∧
    ∃ y ∈ before, Entry.Clashes y x e

namespace Registry

/-- The registry that holds the given entries. -/
def ofEntries (xs : List Entry) : Registry where
  plugins := xs.filterMap Entry.name?
  registrations := xs.filterMap Entry.registration?

/-- Puts one entry in place. -/
def add (r : Registry) : Entry → Except SetupError Registry
  | .plugin name =>
    if name ∈ r.plugins then .error (.duplicatePlugin name)
    else .ok { r with plugins := r.plugins ++ [name] }
  | .service e => register e.plugin r e.service

/-- Services make no use of the names of the plugins. -/
theorem foldlM_register (plugin name : String) (services : List Service) (r : Registry) :
    (services.map fun s => Entry.service ⟨plugin, s⟩).foldlM add
        { r with plugins := r.plugins ++ [name] } =
      services.foldlM (register plugin) r >>= fun r =>
        pure { r with plugins := r.plugins ++ [name] } := by
  induction services generalizing r with
  | nil => rfl
  | cons s services ih =>
    have hfind : Registry.find? { r with plugins := r.plugins ++ [name] } s.id = r.find? s.id := rfl
    rw [List.map_cons, List.foldlM_cons, List.foldlM_cons]
    simp only [add, register, hfind]
    cases r.find? s.id with
    | none => exact ih { r with registrations := r.registrations ++ [⟨plugin, s⟩] }
    | some other => rfl

/-- It makes no difference whether the name of a plugin is put down before its services or behind
them. -/
theorem load_eq_foldlM (r : Registry) (p : Plugin) : r.load p = p.entries.foldlM add r := by
  rw [Plugin.entries, List.foldlM_cons]
  simp only [load, add]
  split
  · rfl
  · exact (foldlM_register p.name p.name p.services r).symm

theorem foldlM_load (ps : List Plugin) (r : Registry) :
    ps.foldlM load r = (ps.flatMap Plugin.entries).foldlM add r := by
  induction ps generalizing r with
  | nil => rfl
  | cons p ps ih =>
    rw [List.foldlM_cons, List.flatMap_cons, List.foldlM_append, load_eq_foldlM]
    exact congrArg (p.entries.foldlM add r >>= ·) (funext ih)

variable {xs seen : List Entry} {x y : Entry} {e : SetupError} {r : Registry}

theorem mem_plugins_ofEntries {name : String} :
    name ∈ (ofEntries xs).plugins ↔ .plugin name ∈ xs := by
  rw [ofEntries, List.mem_filterMap]
  constructor
  · rintro ⟨x, hx, hname⟩
    cases x with
    | plugin other => exact Option.some.inj hname ▸ hx
    | service e => cases hname
  · exact fun h => ⟨_, h, rfl⟩

theorem mem_registrations_ofEntries {e : Registration} :
    e ∈ (ofEntries xs).registrations ↔ .service e ∈ xs := by
  rw [ofEntries, List.mem_filterMap]
  constructor
  · rintro ⟨x, hx, he⟩
    cases x with
    | plugin name => cases he
    | service other => exact Option.some.inj he ▸ hx
  · exact fun h => ⟨_, h, rfl⟩

theorem clashFree_iff : Entry.ClashFree xs ↔
    (ofEntries xs).plugins.Nodup ∧
      (ofEntries xs).registrations.Pairwise (·.service.id ≠ ·.service.id) := by
  rw [ofEntries, List.Nodup, List.pairwise_filterMap, List.pairwise_filterMap,
    ← List.pairwise_and_iff, Entry.ClashFree]
  refine List.Pairwise.iff fun y x => ?_
  cases y with
  | plugin a =>
    cases x with
    | plugin b => simp [Entry.name?, Entry.registration?, Entry.clashes_plugin_iff]
    | service b => simpa [Entry.name?, Entry.registration?] using fun e => nofun
  | service a =>
    cases x with
    | plugin b => simpa [Entry.name?, Entry.registration?] using fun e => nofun
    | service b => simp [Entry.name?, Entry.registration?, Entry.clashes_service_iff]

theorem clashFree_concat_iff : Entry.ClashFree (seen ++ [x]) ↔
    Entry.ClashFree seen ∧ ∀ y ∈ seen, ∀ e, ¬ Entry.Clashes y x e := by
  simp [Entry.ClashFree, List.pairwise_append]

/-- Where no number occurs twice, looking one up finds all there is. -/
theorem find?_eq_some_iff {id : Int32} {e : Registration}
    (hr : r.registrations.Pairwise (·.service.id ≠ ·.service.id)) :
    r.find? id = some e ↔ e ∈ r.registrations ∧ e.service.id = id := by
  rw [find?, List.find?_eq_some_iff_append]
  constructor
  · rintro ⟨hid, before, after, hr', -⟩
    exact ⟨hr' ▸ List.mem_append_right before List.mem_cons_self, eq_of_beq hid⟩
  · rintro ⟨he, rfl⟩
    obtain ⟨before, after, hr'⟩ := List.append_of_mem he
    refine ⟨beq_self_eq_true _, before, after, hr', fun e' he' => ?_⟩
    rw [hr'] at hr
    have hne := (List.pairwise_append.1 hr).2.2 e' he' e List.mem_cons_self
    simpa using hne

theorem eq_of_add {r' : Registry} (h : r.add x = .ok r') :
    r' = ⟨r.plugins ++ x.name?.toList, r.registrations ++ x.registration?.toList⟩ := by
  cases x with
  | plugin name =>
    simp only [add] at h
    split at h <;> cases h
    simp [Entry.name?, Entry.registration?]
  | service e =>
    simp only [add, register] at h
    split at h <;> cases h
    simp [Entry.name?, Entry.registration?]

theorem ofEntries_concat (xs : List Entry) (x : Entry) : ofEntries (xs ++ [x]) =
    ⟨(ofEntries xs).plugins ++ x.name?.toList,
      (ofEntries xs).registrations ++ x.registration?.toList⟩ := by
  simp only [ofEntries, List.filterMap_append]
  cases x <;> rfl

/-- An entry is refused if it clashes with one that is there. -/
theorem add_eq_error_iff (hseen : Entry.ClashFree seen) :
    (ofEntries seen).add x = .error e ↔ ∃ y ∈ seen, Entry.Clashes y x e := by
  cases x with
  | plugin name =>
    have hclash : (∃ y ∈ seen, Entry.Clashes y (.plugin name) e) ↔
        .plugin name ∈ seen ∧ e = .duplicatePlugin name := by
      constructor
      · rintro ⟨y, hy, hc⟩
        cases hc with
        | plugin => exact ⟨hy, rfl⟩
      · rintro ⟨hy, rfl⟩
        exact ⟨_, hy, .plugin name⟩
    rw [hclash, ← mem_plugins_ofEntries]
    by_cases hname : name ∈ (ofEntries seen).plugins <;> simp [add, hname, eq_comm]
  | service b =>
    have hclash : (∃ y ∈ seen, Entry.Clashes y (.service b) e) ↔
        ∃ a, (ofEntries seen).find? b.service.id = some a ∧
          e = .duplicateSyscall b.service.id b.service.name b.plugin a.plugin := by
      simp only [find?_eq_some_iff (clashFree_iff.1 hseen).2, mem_registrations_ofEntries]
      constructor
      · rintro ⟨y, hy, hc⟩
        cases hc with
        | service hid => exact ⟨_, ⟨hy, hid⟩, rfl⟩
      · rintro ⟨a, ⟨ha, hid⟩, rfl⟩
        exact ⟨_, ha, .service hid⟩
    rw [hclash]
    cases ha : (ofEntries seen).find? b.service.id <;> simp [add, register, ha, eq_comm]

theorem add_eq_ok_iff (hseen : Entry.ClashFree seen) :
    (ofEntries seen).add x = .ok r ↔
      Entry.ClashFree (seen ++ [x]) ∧ r = ofEntries (seen ++ [x]) := by
  rw [clashFree_concat_iff, ofEntries_concat]
  constructor
  · intro h
    refine ⟨⟨hseen, fun y hy e hc => ?_⟩, eq_of_add h⟩
    rw [(add_eq_error_iff hseen).2 ⟨y, hy, hc⟩] at h
    cases h
  · rintro ⟨⟨-, hfree⟩, rfl⟩
    cases h : (ofEntries seen).add x with
    | ok r => rw [eq_of_add h]
    | error e =>
      obtain ⟨y, hy, hc⟩ := (add_eq_error_iff hseen).1 h
      exact absurd hc (hfree y hy e)

theorem foldlM_add_eq_ok_iff (hseen : Entry.ClashFree seen) :
    xs.foldlM add (ofEntries seen) = .ok r ↔
      Entry.ClashFree (seen ++ xs) ∧ r = ofEntries (seen ++ xs) := by
  induction xs generalizing seen with
  | nil => simp [hseen, pure, Except.pure, eq_comm]
  | cons x xs ih =>
    rw [List.foldlM_cons, bind_eq_ok_iff, List.append_cons]
    constructor
    · rintro ⟨r', hr', h⟩
      obtain ⟨hx, rfl⟩ := (add_eq_ok_iff hseen).1 hr'
      exact (ih hx).1 h
    · rintro ⟨hxs, hr⟩
      have hx : Entry.ClashFree (seen ++ [x]) := hxs.sublist (List.sublist_append_left _ _)
      exact ⟨_, (add_eq_ok_iff hseen).2 ⟨hx, rfl⟩, (ih hx).2 ⟨hxs, hr⟩⟩

theorem exists_clash_of_foldlM_add (hseen : Entry.ClashFree seen)
    (h : xs.foldlM add (ofEntries seen) = .error e) :
    ∃ before x after, xs = before ++ x :: after ∧ Entry.ClashFree (seen ++ before) ∧
      ∃ y ∈ seen ++ before, Entry.Clashes y x e := by
  induction xs generalizing seen with
  | nil => cases h
  | cons x xs ih =>
    rw [List.foldlM_cons] at h
    rcases bind_eq_error_iff.1 h with h | ⟨r, hr, h⟩
    · refine ⟨[], x, xs, rfl, ?_, ?_⟩ <;> rw [List.append_nil]
      · exact hseen
      · exact (add_eq_error_iff hseen).1 h
    · obtain ⟨hx, rfl⟩ := (add_eq_ok_iff hseen).1 hr
      obtain ⟨before, x', after, rfl, hfree, hclash⟩ := ih hx h
      rw [← List.append_cons] at hfree hclash
      exact ⟨x :: before, x', after, rfl, hfree, hclash⟩

/-- Loading plugins puts their entries in place. -/
theorem ofPlugins_eq_foldlM (ps : List Plugin) :
    ofPlugins ps = (ps.flatMap Plugin.entries).foldlM add (ofEntries []) :=
  foldlM_load ps {}

theorem ofPlugins_eq_ok_iff {ps : List Plugin} :
    ofPlugins ps = .ok r ↔ Entry.ClashFree (ps.flatMap Plugin.entries) ∧
      r = ofEntries (ps.flatMap Plugin.entries) := by
  rw [ofPlugins_eq_foldlM]
  exact foldlM_add_eq_ok_iff .nil

theorem ofPlugins_eq_error_iff {ps : List Plugin} :
    ofPlugins ps = .error e ↔ IsFirstClash ps e := by
  rw [ofPlugins_eq_foldlM]
  constructor
  · exact exists_clash_of_foldlM_add .nil
  · rintro ⟨before, x, after, hps, hfree, hclash⟩
    have hbefore : before.foldlM add (ofEntries []) = .ok (ofEntries before) :=
      (foldlM_add_eq_ok_iff .nil).2 ⟨hfree, rfl⟩
    rw [hps, List.foldlM_append, hbefore]
    have hx : (ofEntries before).add x = .error e := (add_eq_error_iff hfree).2 hclash
    show (x :: after).foldlM add (ofEntries before) = .error e
    rw [List.foldlM_cons, hx]
    rfl

/-- The registrations of plugins in load order. -/
def loaded (ps : List Plugin) : List Registration :=
  ps.flatMap fun p => p.services.map (⟨p.name, ·⟩)

theorem ofEntries_entries (ps : List Plugin) :
    ofEntries (ps.flatMap Plugin.entries) = ⟨ps.map (·.name), loaded ps⟩ := by
  have hname (p : Plugin) : p.entries.filterMap Entry.name? = [p.name] := by
    simp [Plugin.entries, Entry.name?]
  have hservices (p : Plugin) :
      p.entries.filterMap Entry.registration? = p.services.map (⟨p.name, ·⟩) := by
    rw [Plugin.entries, List.filterMap_cons_none rfl, List.filterMap_map]
    exact congrFun List.filterMap_eq_map p.services
  simp only [ofEntries, List.filterMap_flatMap, hname, hservices, ← List.map_eq_flatMap, loaded]

theorem map_id_loaded (ps : List Plugin) :
    (loaded ps).map (·.service.id) = ps.flatMap fun p => p.services.map (·.id) := by
  simp [loaded, List.map_flatMap, Function.comp_def]

theorem clashFree_entries_iff {ps : List Plugin} :
    Entry.ClashFree (ps.flatMap Plugin.entries) ↔
      (ps.map (·.name)).Nodup ∧ (ps.flatMap fun p => p.services.map (·.id)).Nodup := by
  have hids : ((loaded ps).map (·.service.id)).Nodup ↔
      (loaded ps).Pairwise (·.service.id ≠ ·.service.id) := List.pairwise_map
  rw [clashFree_iff, ofEntries_entries, ← map_id_loaded, hids]

theorem perm_table (r : Registry) : r.table.Perm r.registrations :=
  List.mergeSort_perm _ _

/-- A table without a repeated number is strictly ascending. -/
theorem pairwise_table (hr : r.registrations.Pairwise (·.service.id ≠ ·.service.id)) :
    r.table.Pairwise (·.service.id < ·.service.id) := by
  have hle : r.table.Pairwise (·.service.id ≤ ·.service.id) := by
    have hsorted : r.table.Pairwise fun a b => decide (a.service.id ≤ b.service.id) = true := by
      refine List.pairwise_mergeSort ?_ ?_ r.registrations
      · intro a b c hab hbc
        simp only [decide_eq_true_eq] at hab hbc ⊢
        exact Int32.le_trans hab hbc
      · intro a b
        simpa using Int32.le_total _ _
    simpa using hsorted
  have hne : r.table.Pairwise (·.service.id ≠ ·.service.id) :=
    (perm_table r).symm.pairwise hr fun {a b} h => h.symm
  refine (hle.and hne).imp fun {a b} h => ?_
  exact Int32.lt_of_le_of_ne h.1 h.2

/-- A call of a number that is not taken is refused, and only that. -/
theorem call_eq_unknownSyscall_iff {id : Int32} {m : Machine} :
    (r.call id m).1 = .error (.unknownSyscall id) ↔ r.find? id = none := by
  unfold call
  cases r.find? id with
  | none => simp
  | some e =>
    dsimp only
    split <;> simp

/-- What a registry does that holds the services of the given plugins and no others. -/
structure Provides (r : Registry) (ps : List Plugin) : Prop where
  plugins : r.plugins = ps.map (·.name)
  sorted : r.table.Pairwise (·.service.id < ·.service.id)
  mem_table (e : Registration) : e ∈ r.table ↔ ∃ p ∈ ps, ∃ s ∈ p.services, e = ⟨p.name, s⟩
  unknown (id : Int32) (m : Machine) :
    (r.call id m).1 = .error (.unknownSyscall id) ↔ ∀ p ∈ ps, ∀ s ∈ p.services, s.id ≠ id
  /-- A call runs the handler of the one service with its number, and names the service if it
  fails. -/
  runs : ∀ p ∈ ps, ∀ s ∈ p.services, ∀ (m m' : Machine) (result : Except ServiceError Outcome),
    s.handler (m.note fun _ => .calling s.id p.name s.name) = (result, m') →
      r.call s.id m = (result.mapError (.syscall s.id s.name), m')

theorem provides_of_ofPlugins {ps : List Plugin} (h : ofPlugins ps = .ok r) : r.Provides ps := by
  obtain ⟨hfree, rfl⟩ := ofPlugins_eq_ok_iff.1 h
  have hids := (clashFree_iff.1 hfree).2
  rw [ofEntries_entries] at hids ⊢
  have hmem {e : Registration} :
      e ∈ loaded ps ↔ ∃ p ∈ ps, ∃ s ∈ p.services, e = ⟨p.name, s⟩ := by
    simp [loaded, eq_comm]
  refine ⟨rfl, pairwise_table hids, fun e => ?_, fun id m => ?_, fun p hp s hs m m' result h => ?_⟩
  · rw [(perm_table _).mem_iff]
    exact hmem
  · rw [call_eq_unknownSyscall_iff, Option.eq_none_iff_forall_ne_some]
    constructor
    · rintro hnone p hp s hs rfl
      exact hnone _ ((find?_eq_some_iff hids).2 ⟨hmem.2 ⟨p, hp, s, hs, rfl⟩, rfl⟩)
    · intro hnone e he
      obtain ⟨he, hid⟩ := (find?_eq_some_iff hids).1 he
      obtain ⟨p, hp, s, hs, rfl⟩ := hmem.1 he
      exact hnone p hp s hs hid
  · have hfind := (find?_eq_some_iff hids).2 ⟨hmem.2 ⟨p, hp, s, hs, rfl⟩, rfl⟩
    cases result with
    | ok outcome => exact call_eq_ok hfind h
    | error cause => exact call_eq_error hfind h

/-- What loading plugins comes to. -/
structure LoadsExactly (ps : List Plugin) : Prop where
  succeeds_iff : (∃ r, ofPlugins ps = .ok r) ↔
    (ps.map (·.name)).Nodup ∧ (ps.flatMap fun p => p.services.map (·.id)).Nodup
  provides : ∀ r, ofPlugins ps = .ok r → r.Provides ps
  fails_iff : ∀ e, ofPlugins ps = .error e ↔ IsFirstClash ps e

/-- Plugins can be loaded together exactly if no two have one name and no number occurs twice. The
registry then provides their services and nothing else; otherwise the error names the first clash in
load order. -/
theorem loadsExactly (ps : List Plugin) : LoadsExactly ps where
  succeeds_iff := by
    simp only [ofPlugins_eq_ok_iff, exists_and_left, exists_eq, and_true]
    exact clashFree_entries_iff
  provides := fun _ => provides_of_ofPlugins
  fails_iff := fun _ => ofPlugins_eq_error_iff

end Registry

end RegisterMachine
