import Mathlib.Data.Finset.Card
import Mathlib.Data.List.TakeWhile
import ScriptEngine.Machine.Package

/-!
# The registry of packages

The registry remembers what has been loaded and which imports are in progress. `Packages.Sound`
says what is always true of it: no import is in progress twice, what is in progress is not loaded,
a path has one package at most, and everything comes from the loader. As a path with an import in
progress is one the loader knows, there are never more of them than paths that the loader knows
(`Packages.Sound.length_resolving_le`).

Three relations say how a registry develops. `p.Kept q`: what was loaded at `p` is loaded at `q`.
`p.Onward q` holds of a registry `q` that is seen while something that began at `p` is going on:
besides, imports may have begun on top of those in progress. `p.Settled q` holds once it is over:
the imports in progress are those of `p`. An import begins with `Packages.enter`, may have a package
kept (`Packages.keep`), and ends with `Packages.leave`; the whole of it goes from `p` to a registry
settled for `p` (`Packages.Settled.leave`, `Packages.Settled.keep`).
-/

namespace ScriptEngine

namespace Packages

variable {p q u : Packages} {path : String}

/-! ### What is always true of a registry -/

/-- The loader has a program for the path. -/
def Provides (p : Packages) (path : String) : Prop :=
  ∃ loader program, p.loader = some loader ∧ loader path = .ok program

/-- **The registry is in order.** -/
structure Sound (p : Packages) : Prop where
  /-- No import is in progress twice. -/
  nodup : p.resolving.Nodup
  /-- What is being evaluated is not loaded yet. -/
  unloaded : ∀ path ∈ p.resolving, p.loaded.get? path = none
  provided : ∀ path ∈ p.resolving, p.Provides path
  /-- What is loaded under a path is the package of that path, which came from the loader. -/
  stored : ∀ path r, p.loaded.get? path = some r →
    p.Provides path ∧ ∃ m, p.table.get? r = some m ∧ m.path = path
  /-- There is no other package of that path: no evaluation has succeeded twice. -/
  unique : ∀ r m, p.table.get? r = some m → p.loaded.get? m.path = some r

/-- A registry in which nothing has been imported is in order, whatever its loader. -/
theorem sound_ofLoader (loader : Option Loader) : (ofLoader loader).Sound where
  nodup := .nil
  unloaded := nofun
  provided := nofun
  stored := nofun
  unique := nofun

/-- **Imports in progress are bounded by the paths that the loader knows.** -/
theorem Sound.length_resolving_le (h : p.Sound) {paths : Finset String}
    (hpaths : ∀ path, p.Provides path → path ∈ paths) : p.resolving.length ≤ paths.card := by
  rw [← List.toFinset_card_of_nodup h.nodup]
  refine Finset.card_le_card fun path hpath => hpaths path ?_
  exact h.provided path (List.mem_toFinset.mp hpath)

/-- Of programs that are registered up front, the loader knows the paths they are registered at. -/
theorem mem_keys_of_provides {programs : Assoc String Program}
    (hloader : p.loader = some (.ofPrograms programs)) (h : p.Provides path) :
    path ∈ programs.keys := by
  obtain ⟨loader, program, hl, hprogram⟩ := h
  obtain rfl := Option.some.inj (hloader.symm.trans hl)
  unfold Loader.ofPrograms at hprogram
  split at hprogram
  · next hfound => exact (Assoc.isSome_get?_iff _).mp (Option.isSome_of_eq_some hfound)
  · cases hprogram

/-- There is a circle to report exactly if the path is being imported. -/
theorem cycle?_eq_none_iff : p.cycle? path = none ↔ path ∉ p.resolving := by
  have hnil : p.cycle? path = none ↔ p.resolving.dropWhile (· != path) = [] := by
    unfold cycle?
    split <;> simp_all
  rw [hnil, List.dropWhile_eq_nil_iff]
  constructor
  · intro h hmem
    simpa using h path hmem
  · intro h x hx
    simp only [bne_iff_ne]
    rintro rfl
    exact h hx

/-! ### How a registry develops -/

/-- What was loaded at `p` is loaded at `q`. -/
structure Kept (p q : Packages) : Prop where
  loader : q.loader = p.loader
  loaded : ∀ path r, p.loaded.get? path = some r → q.loaded.get? path = some r
  table : ∀ r m, p.table.get? r = some m → q.table.get? r = some m

/-- `q` is seen while something that began at `p` is going on. -/
structure Onward (p q : Packages) : Prop extends Kept p q where
  sound : q.Sound
  resolving : p.resolving <+: q.resolving

/-- `q` is what is there when something that began at `p` is over. -/
structure Settled (p q : Packages) : Prop extends Onward p q where
  restored : q.resolving = p.resolving

theorem Kept.refl (p : Packages) : p.Kept p := ⟨rfl, fun _ _ => id, fun _ _ => id⟩

theorem Kept.trans (h : p.Kept q) (h' : q.Kept u) : p.Kept u where
  loader := h'.loader.trans h.loader
  loaded path r hr := h'.loaded path r (h.loaded path r hr)
  table r m hm := h'.table r m (h.table r m hm)

theorem Kept.provides_iff (h : p.Kept q) : q.Provides path ↔ p.Provides path := by
  rw [Provides, Provides, h.loader]

/-- **What is loaded is never being imported again.** -/
theorem Kept.not_mem_resolving (h : p.Kept q) (hq : q.Sound) {r : Ref .package}
    (hr : p.loaded.get? path = some r) : path ∉ q.resolving := by
  intro hmem
  have hnone := hq.unloaded path hmem
  rw [h.loaded path r hr] at hnone
  cases hnone

theorem Onward.refl (h : p.Sound) : p.Onward p := ⟨.refl p, h, List.prefix_rfl⟩

theorem Onward.trans (h : p.Onward q) (h' : q.Onward u) : p.Onward u :=
  ⟨h.toKept.trans h'.toKept, h'.sound, h.resolving.trans h'.resolving⟩

theorem Settled.refl (h : p.Sound) : p.Settled p := ⟨.refl h, rfl⟩

theorem Settled.trans (h : p.Settled q) (h' : q.Settled u) : p.Settled u :=
  ⟨h.toOnward.trans h'.toOnward, h'.restored.trans h.restored⟩

/-! ### Imports -/

/-- The registry with one more package, which is loaded under its path. -/
def keep (p : Packages) (m : Package) : Packages :=
  { p with table := (p.table.add m).2, loaded := p.loaded.insert m.path (p.table.add m).1 }

theorem kept_keep {m : Package} (hnone : p.loaded.get? m.path = none) : p.Kept (p.keep m) := by
  refine ⟨rfl, fun path r hr => ?_, fun r n hn => Table.get?_add_of_some _ _ hn⟩
  have hne : path ≠ m.path := by
    rintro rfl
    rw [hnone] at hr
    cases hr
  rw [← hr]
  exact Assoc.get?_insert_of_ne _ hne _

theorem kept_leave (p : Packages) (path : String) : p.Kept (p.leave path) :=
  ⟨rfl, fun _ _ => id, fun _ _ => id⟩

theorem kept_enter (p : Packages) (path : String) : p.Kept (p.enter path) :=
  ⟨rfl, fun _ _ => id, fun _ _ => id⟩

/-- An import may begin if the loader has a program for it and none is kept or being evaluated. -/
theorem Sound.onward_enter (h : p.Sound) (hfresh : path ∉ p.resolving)
    (hnone : p.loaded.get? path = none) (hprovided : p.Provides path) :
    p.Onward (p.enter path) := by
  -- what holds of the imports in progress and of the new one holds of all that are now
  have hall : ∀ {P : String → Prop}, (∀ x ∈ p.resolving, P x) → P path →
      ∀ x ∈ (p.enter path).resolving, P x := by
    intro P hP hpath x hx
    obtain hx | hx := List.mem_append.mp hx
    · exact hP x hx
    · obtain rfl := List.mem_singleton.mp hx
      exact hpath
  have hsound : (p.enter path).Sound :=
    { nodup := by
        refine List.nodup_append.mpr ⟨h.nodup, List.nodup_singleton path, ?_⟩
        intro x hx y hy
        obtain rfl := List.mem_singleton.mp hy
        exact fun heq => hfresh (heq ▸ hx)
      unloaded := hall h.unloaded hnone
      provided := hall h.provided hprovided
      stored := h.stored
      unique := h.unique }
  exact ⟨kept_enter p path, hsound, List.prefix_append _ _⟩

/-- Leaving takes the latest import off the list. -/
theorem leave_resolving (h : q.resolving = p.resolving ++ [path]) :
    (q.leave path).resolving = p.resolving := by
  simp [leave, h]

theorem leave_enter (p : Packages) (path : String) : (p.enter path).leave path = p := by
  obtain ⟨loader, loaded, resolving, table⟩ := p
  simp [leave, enter]

/-- What is seen during an import is seen during what the import is part of. -/
theorem Onward.of_enter (h : (p.enter path).Onward q) : p.Onward q :=
  ⟨(kept_enter p path).trans h.toKept, h.sound, (List.prefix_append _ _).trans h.resolving⟩

/-- An import that is over leaves the imports in progress that were there before it. -/
theorem Settled.leave (h : (p.enter path).Settled q) : p.Settled (q.leave path) := by
  have hrestored : (q.leave path).resolving = p.resolving := leave_resolving h.restored
  have hprefix : p.resolving <+: q.resolving := h.toOnward.of_enter.resolving
  -- the list has become shorter, and nothing else has changed
  have hq : ∀ x ∈ (q.leave path).resolving, x ∈ q.resolving := by
    intro x hx
    rw [hrestored] at hx
    exact hprefix.subset hx
  have hsound : (q.leave path).Sound :=
    { nodup := by
        rw [hrestored]
        exact h.sound.nodup.sublist hprefix.sublist
      unloaded := fun x hx => h.sound.unloaded x (hq x hx)
      provided := fun x hx => h.sound.provided x (hq x hx)
      stored := h.sound.stored
      unique := h.sound.unique }
  have hkept : p.Kept (q.leave path) := h.toOnward.of_enter.toKept.trans (kept_leave q path)
  exact ⟨⟨hkept, hsound, by rw [hrestored]⟩, hrestored⟩

/-- The path of an import that is over is not loaded, unless its package is kept. -/
theorem Settled.loaded_leave (h : (p.enter path).Settled q) :
    (q.leave path).loaded.get? path = none := by
  refine h.sound.unloaded path ?_
  rw [h.restored]
  exact List.mem_append_right _ (List.mem_singleton_self path)

/-- A package can be kept once its path is neither loaded nor on the list. -/
theorem Settled.keep (h : p.Settled q) {m : Package} (hfresh : m.path ∉ q.resolving)
    (hnone : q.loaded.get? m.path = none) (hprovided : q.Provides m.path) :
    p.Settled (q.keep m) := by
  have hkept : q.Kept (q.keep m) := kept_keep hnone
  have hself : (q.keep m).loaded.get? m.path = some (q.table.add m).1 :=
    Assoc.get?_insert_self _ _ _
  -- under every other path there is what there was
  have hold : ∀ path, path ≠ m.path → (q.keep m).loaded.get? path = q.loaded.get? path :=
    fun path hne => Assoc.get?_insert_of_ne _ hne _
  have hsound : (q.keep m).Sound :=
    { nodup := h.sound.nodup
      unloaded := fun path hpath => by
        have hne : path ≠ m.path := fun heq => hfresh (heq ▸ hpath)
        rw [hold path hne]
        exact h.sound.unloaded path hpath
      provided := h.sound.provided
      stored := fun path r hr => by
        by_cases hpath : path = m.path
        · subst hpath
          obtain rfl := Option.some.inj (hself.symm.trans hr)
          exact ⟨hprovided, m, Table.get?_add_self _ _, rfl⟩
        · rw [hold path hpath] at hr
          obtain ⟨hp, n, hn, hnp⟩ := h.sound.stored path r hr
          exact ⟨hp, n, hkept.table r n hn, hnp⟩
      unique := fun r n hn => by
        obtain hn | ⟨rfl, rfl⟩ := Table.eq_of_get?_add _ _ hn
        · exact hkept.loaded _ r (h.sound.unique r n hn)
        · exact hself }
  exact ⟨⟨h.toKept.trans hkept, hsound, h.resolving⟩, h.restored⟩

end Packages

end ScriptEngine
