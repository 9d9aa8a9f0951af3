import Multicrew.Core.StringUtilities
import Multicrew.Library.Bytes
import Multicrew.Library.Machine

/-!
# Loading gauge modules

`MyLoadLibraryA` gives every module a `ModuleLoader` that is loaded by a path into a `GAUGES` directory
and exports a `Linkage`, and counts its later loads by such paths; `MyFreeLibrary` counts every free of
the module. The system counts every load, so the two counts need not agree. The loaders are kept here
with the modules that `gLoaders` maps to them; what a loader does besides its hooks is left out.
-/

namespace Multicrew.Gauge

open Multicrew.Core (Str sameText)
open Multicrew.Library

/-- A function in a `Linkage`: none, one of the module, or that of a loader. -/
inductive ModuleFunction
  | null
  | own (address : ℕ)
  | moduleInitCallback (loader : ℕ)
  | moduleDeinitCallback (loader : ℕ)
  deriving DecidableEq, Repr

/-- The two functions in a `GAUGESLINKAGE` that are hooked. -/
structure Linkage where
  moduleInit : ModuleFunction
  moduleDeinit : ModuleFunction
  deriving DecidableEq, Repr

/-- `ModuleLoader`, with its address and whether it has deleted itself. -/
structure ModuleLoader where
  address : ℕ
  name : Str
  oldModuleInit : ModuleFunction
  oldModuleDeinit : ModuleFunction
  refcount : ℤ := 0
  deleted : Bool := false
  deriving DecidableEq, Repr

/-- What there is for an `HMODULE`: the loads the system counts, the `Linkage` of the module while it
is loaded, and its entry in `gLoaders`. -/
structure LoadedModule where
  count : ℕ := 0
  linkage : Option Linkage := none
  loader : Option ModuleLoader := none
  deriving DecidableEq, Repr

/-- `path.rfind` of a character -/
def rfind (path : Str) (c : UInt8) : Option ℕ :=
  if c ∈ path then some (path.length - 1 - path.reverse.idxOf c) else none

/-- What is behind the last backslash begins here. -/
def nameLeft (path : Str) : ℕ := ((rfind path 0x5C).map (· + 1)).getD 0

/-- The last directory of a path, with the backslash behind it. -/
def lastDir (path : Str) : Str :=
  let left := nameLeft path
  let lastDirLeft := nameLeft (if left = 0 then path else path.take (left - 1))
  (path.drop lastDirLeft).take (left - lastDirLeft)

/-- The name of a module: what is before the last point of the path, if the point is in the name. -/
def moduleName (path : Str) : Str :=
  let name := path.drop (nameLeft path)
  match rfind path 0x2E with
  | some right => if nameLeft path ≤ right then name.take (right - nameLeft path) else name
  | none => name

/-- The path is one that `MyLoadLibraryA` looks at. -/
def inGauges (path : Str) : Prop := sameText (lastDir path) (ascii "GAUGES" ++ [0x5C])

instance (path : Str) : Decidable (inGauges path) := inferInstanceAs (Decidable (_ = true))

namespace ModuleLoader

/-- `ModuleLoader( gaugeLinkage, name )` -/
def new (address : ℕ) (linkage : Linkage) (name : Str) : ModuleLoader :=
  { address := address, name := name, oldModuleInit := linkage.moduleInit,
    oldModuleDeinit := linkage.moduleDeinit }

/-- The hooks a loader installs. -/
def hooks (address : ℕ) : Linkage := ⟨.moduleInitCallback address, .moduleDeinitCallback address⟩

/-- `Shared::ref` -/
def ref (l : ModuleLoader) : ModuleLoader := { l with refcount := l.refcount + 1 }

/-- `Shared::deref`, which returns the count. -/
def deref (l : ModuleLoader) : ModuleLoader × ℤ :=
  ({ l with refcount := l.refcount - 1, deleted := l.refcount - 1 = 0 }, l.refcount - 1)

end ModuleLoader

namespace LoadedModule

variable (m : LoadedModule)

/-- The system's `LoadLibraryA`; `image` is the `Linkage` in the file, for a module that is not loaded
yet. -/
def systemLoad (image : Option Linkage) : LoadedModule :=
  { m with count := m.count + 1, linkage := if m.count = 0 then image else m.linkage }

/-- `MyLoadLibraryA`; a loader that is made gets the address `address`. -/
def load (path : Str) (image : Option Linkage) (address : ℕ) : LoadedModule :=
  let m := m.systemLoad image
  if inGauges path then
    match m.loader, m.linkage with
    | some loader, _ => { m with loader := some loader.ref }
    | none, some linkage =>
      { m with
        loader := some (ModuleLoader.new address linkage (moduleName path)).ref
        linkage := some (ModuleLoader.hooks address) }
    | none, none => m
  else m

/-- The system's `FreeLibrary` -/
def systemFree : LoadedModule :=
  { m with count := m.count - 1, linkage := if m.count ≤ 1 then none else m.linkage }

/-- `MyFreeLibrary`; a loader that deletes itself restores the functions. -/
def free : LoadedModule :=
  match m.loader with
  | none => m.systemFree
  | some loader =>
    let (loader, refCount) := loader.deref
    systemFree { m with
      linkage := if loader.deleted
        then m.linkage.map fun _ => ⟨loader.oldModuleInit, loader.oldModuleDeinit⟩
        else m.linkage
      loader := if refCount = 0 then none else some loader }

/-- An entry of `gLoaders` is a loader that has not deleted itself, with its hooks installed. -/
def Hooked : Prop :=
  ∀ l, m.loader = some l → l.deleted = false ∧ m.linkage = some (ModuleLoader.hooks l.address)

/-- The entry is still the same. -/
def Keeps (m m' : LoadedModule) : Prop :=
  ∀ l, m.loader = some l → ∃ l', m'.loader = some l' ∧ l'.address = l.address

/-- The loads a loader counts are all that the system counts. -/
def Matched : Prop :=
  m.Hooked ∧ ∀ l, m.loader = some l → l.refcount = m.count ∧ 0 < m.count

/-- The system counts loads that the loader does not. -/
def Behind : Prop :=
  ∃ l, m.loader = some l ∧ 0 < l.refcount ∧ l.refcount < m.count

/-- A module with a loader is loaded by a path into `GAUGES`, and one without is not if it is already
loaded and has a `Linkage`. -/
def ProperLoad (path : Str) : Prop :=
  if m.loader.isSome then inGauges path else inGauges path → m.linkage.isSome → m.count = 0

end LoadedModule

/-- The modules by their `HMODULE`, and the next address. -/
structure LoaderState where
  modules : ℕ → LoadedModule
  next : ℕ := 0

/-- A load with the `HMODULE` the system returns, or 0, and a free. -/
inductive LoaderAction
  | load (path : Str) (ret : ℕ) (image : Option Linkage)
  | free (hModule : ℕ)
  deriving DecidableEq, Repr

namespace LoaderState

variable (s : LoaderState)

/-- One step. -/
def step : LoaderAction → LoaderState
  | .load path ret image =>
    if ret = 0 then s
    else ⟨Function.update s.modules ret ((s.modules ret).load path image s.next), s.next + 1⟩
  | .free h => { s with modules := Function.update s.modules h (s.modules h).free }

/-- The modules before the hooks are there, with what the system has loaded. -/
def start (count : ℕ → ℕ) (linkage : ℕ → Option Linkage) : LoaderState :=
  ⟨fun h => { count := count h, linkage := linkage h }, 0⟩

/-- What a step has to keep: an entry goes with the free that is the module's last one, and with no
other step, and every entry is a loader that exists with its hooks. -/
def Follows (a : LoaderAction) : Prop :=
  ∀ h, ((s.step a).modules h).Hooked ∧
    if a = .free h ∧ (s.modules h).count = 1 then ((s.step a).modules h).loader = none
    else (s.modules h).Keeps ((s.step a).modules h)

/-- Every load that succeeds is proper. -/
def Proper : LoaderAction → Prop
  | .load path ret _ => ret ≠ 0 → (s.modules ret).ProperLoad path
  | .free _ => True

end LoaderState

/-- Loads and frees in any order. -/
def loaderMachine : Machine LoaderState LoaderAction where
  initial s := ∃ count linkage, s = .start count linkage
  step s a := some (s.step a)

/-! ## The modules -/

namespace LoadedModule

variable {m : LoadedModule}

/-- What does not change keeps its entry. -/
theorem Keeps.refl (m : LoadedModule) : m.Keeps m := fun l hl => ⟨l, hl, rfl⟩

/-- A load that counts for a loader. -/
theorem load_ref {l : ModuleLoader} (hl : m.loader = some l) {path : Str} (hpath : inGauges path)
    (image : Option Linkage) (address : ℕ) :
    m.load path image address = { m.systemLoad image with loader := some l.ref } := by
  have hload : (m.systemLoad image).loader = some l := hl
  simp only [load, hpath, if_true, hload]

/-- A load that no loader looks at. -/
theorem load_ignored {path : Str} (hpath : ¬ inGauges path) (image : Option Linkage) (address : ℕ) :
    m.load path image address = m.systemLoad image := by
  simp only [load, hpath, if_false]

/-- A load that makes a loader. -/
theorem load_new (hm : m.loader = none) {path : Str} (hpath : inGauges path) {image : Option Linkage}
    {linkage : Linkage} (hlinkage : (m.systemLoad image).linkage = some linkage) (address : ℕ) :
    m.load path image address =
      { m.systemLoad image with
        loader := some (ModuleLoader.new address linkage (moduleName path)).ref
        linkage := some (ModuleLoader.hooks address) } := by
  have hload : (m.systemLoad image).loader = none := hm
  simp only [load, hpath, if_true, hload, hlinkage]

/-- A load of a module that has neither a loader nor a `Linkage`. -/
theorem load_none (hm : m.loader = none) (path : Str) {image : Option Linkage}
    (hlinkage : (m.systemLoad image).linkage = none) (address : ℕ) :
    m.load path image address = m.systemLoad image := by
  have hload : (m.systemLoad image).loader = none := hm
  simp only [load, hload, hlinkage, ite_self]

/-- The free that deletes a loader. -/
theorem free_last {l : ModuleLoader} (hl : m.loader = some l) (hcount : l.refcount = 1) :
    m.free.loader = none := by
  simp [free, hl, ModuleLoader.deref, systemFree, hcount]

/-- A free that leaves a loader. -/
theorem free_deref {l : ModuleLoader} (hl : m.loader = some l) (hcount : l.refcount ≠ 1) :
    m.free = { m.systemFree with
      loader := some { l with refcount := l.refcount - 1, deleted := false } } := by
  have hne : ¬ l.refcount - 1 = 0 := by omega
  simp [free, hl, ModuleLoader.deref, systemFree, hne]

/-- Loads keep every loader. -/
theorem load_keeps (path : Str) (image : Option Linkage) (address : ℕ) :
    m.Keeps (m.load path image address) := by
  intro l hl
  by_cases hpath : inGauges path
  · exact ⟨l.ref, by rw [load_ref hl hpath], rfl⟩
  · exact ⟨l, by rw [load_ignored hpath]; exact hl, rfl⟩

/-- A proper load keeps the counts equal. -/
theorem Matched.load (hm : m.Matched) {path : Str} (hproper : m.ProperLoad path)
    (image : Option Linkage) (address : ℕ) : (m.load path image address).Matched := by
  cases hl : m.loader with
  | some l =>
    obtain ⟨⟨hdeleted, hlinkage⟩, hcount, hpos⟩ := And.intro (hm.1 l hl) (hm.2 l hl)
    have hpath : inGauges path := by
      simpa only [ProperLoad, hl, Option.isSome_some, if_true] using hproper
    rw [load_ref hl hpath]
    have hne : ¬ m.count = 0 := by omega
    constructor
    · rintro l' ⟨⟩
      exact ⟨hdeleted, by simp only [systemLoad, hne, if_false, hlinkage, ModuleLoader.ref]⟩
    · rintro l' ⟨⟩
      simp only [ModuleLoader.ref, systemLoad, hcount]
      omega
  | none =>
    have hkept : ∀ l, (m.systemLoad image).loader ≠ some l := fun l => by
      simp only [systemLoad, hl, ne_eq, reduceCtorEq, not_false_eq_true]
    have hquiet : (m.systemLoad image).Matched :=
      ⟨fun l h => absurd h (hkept l), fun l h => absurd h (hkept l)⟩
    by_cases hpath : inGauges path
    · cases hlinkage : (m.systemLoad image).linkage with
      | none => rwa [load_none hl path hlinkage]
      | some linkage =>
        have hcount : m.count = 0 := by
          by_contra hne
          simp only [systemLoad, hne, if_false] at hlinkage
          simp only [ProperLoad, hl, Option.isSome_none, hlinkage, Option.isSome_some] at hproper
          exact hne (hproper hpath trivial)
        rw [load_new hl hpath hlinkage]
        constructor
        · rintro l' ⟨⟩
          exact ⟨rfl, rfl⟩
        · rintro l' ⟨⟩
          simp only [ModuleLoader.ref, ModuleLoader.new, systemLoad, hcount]
          exact ⟨rfl, Nat.one_pos⟩
    · rwa [load_ignored hpath]

/-- A load that is not proper leaves the loader behind. -/
theorem Matched.load_behind (hm : m.Matched) {path : Str} (hproper : ¬ m.ProperLoad path)
    (image : Option Linkage) (address : ℕ) : (m.load path image address).Behind := by
  cases hl : m.loader with
  | some l =>
    obtain ⟨hcount, hpos⟩ := hm.2 l hl
    have hpath : ¬ inGauges path := by
      simpa only [ProperLoad, hl, Option.isSome_some, if_true] using hproper
    rw [load_ignored hpath]
    refine ⟨l, hl, by omega, ?_⟩
    simp only [systemLoad]
    omega
  | none =>
    simp only [ProperLoad, hl, Option.isSome_none, Bool.false_eq_true, if_false, not_forall] at hproper
    obtain ⟨hpath, hsome, hcount⟩ := hproper
    obtain ⟨linkage, hlinkage⟩ := Option.isSome_iff_exists.mp hsome
    have hloaded : (m.systemLoad image).linkage = some linkage := by
      simp only [systemLoad, hcount, if_false, hlinkage]
    rw [load_new hl hpath hloaded]
    refine ⟨_, rfl, ?_, ?_⟩ <;>
      simp only [ModuleLoader.ref, ModuleLoader.new, systemLoad] <;> omega

/-- A free keeps the counts equal. -/
theorem Matched.free (hm : m.Matched) : m.free.Matched := by
  cases hl : m.loader with
  | none =>
    have hkept : ∀ l, m.free.loader ≠ some l := fun l => by
      simp only [LoadedModule.free, systemFree, hl, ne_eq, reduceCtorEq, not_false_eq_true]
    exact ⟨fun l h => absurd h (hkept l), fun l h => absurd h (hkept l)⟩
  | some l =>
    obtain ⟨⟨-, hlinkage⟩, hcount, hpos⟩ := And.intro (hm.1 l hl) (hm.2 l hl)
    by_cases hlast : l.refcount = 1
    · have hgone := free_last hl hlast
      constructor <;> intro l' hl' <;> rw [hgone] at hl' <;> cases hl'
    · have hmore : ¬ m.count ≤ 1 := by omega
      rw [free_deref hl hlast]
      constructor
      · rintro l' ⟨⟩
        exact ⟨rfl, by simp only [systemFree, hmore, if_false, hlinkage]⟩
      · rintro l' ⟨⟩
        simp only [systemFree]
        omega

/-- With equal counts a loader goes with the last free. -/
theorem Matched.free_follows (hm : m.Matched) :
    if m.count = 1 then m.free.loader = none else m.Keeps m.free := by
  cases hl : m.loader with
  | none =>
    split
    · simp only [LoadedModule.free, systemFree, hl]
    · intro l hl'
      rw [hl] at hl'
      cases hl'
  | some l =>
    obtain ⟨hcount, -⟩ := hm.2 l hl
    split
    · exact free_last hl (by omega)
    · intro l' hl'
      rw [hl, Option.some.injEq] at hl'
      subst hl'
      rw [free_deref hl (by omega)]
      exact ⟨_, rfl, rfl⟩

/-- Loads leave a loader behind. -/
theorem Behind.load (hm : m.Behind) (path : Str) (image : Option Linkage) (address : ℕ) :
    (m.load path image address).Behind := by
  obtain ⟨l, hl, hpos, hlt⟩ := hm
  by_cases hpath : inGauges path
  · rw [load_ref hl hpath]
    refine ⟨_, rfl, ?_, ?_⟩ <;> simp only [ModuleLoader.ref, systemLoad] <;> omega
  · rw [load_ignored hpath]
    refine ⟨l, hl, hpos, ?_⟩
    simp only [systemLoad]
    omega

/-- A free that keeps a loader which is behind leaves it behind, with one reference less. -/
theorem free_keeps {l : ModuleLoader} (hl : m.loader = some l) (hpos : 0 < l.refcount)
    (hlt : l.refcount < m.count) (hkeeps : m.Keeps m.free) :
    ∃ l', m.free.loader = some l' ∧ l'.refcount = l.refcount - 1 ∧ 0 < l'.refcount ∧
      l'.refcount < m.free.count := by
  obtain ⟨l', hl', -⟩ := hkeeps l hl
  have hlast : l.refcount ≠ 1 := by
    intro hlast
    rw [free_last hl hlast] at hl'
    cases hl'
  rw [free_deref hl hlast]
  refine ⟨_, rfl, rfl, ?_, ?_⟩ <;> simp only [systemFree] <;> omega

end LoadedModule

/-! ## Runs -/

namespace LoaderState

variable {s : LoaderState} {a : LoaderAction}

/-- A step loads or frees one module and leaves the others. -/
theorem step_cases (s : LoaderState) (a : LoaderAction) (h : ℕ) :
    (a ≠ .free h ∧ (s.step a).modules h = s.modules h) ∨
    (∃ path image, a = .load path h image ∧ h ≠ 0 ∧
      (s.step a).modules h = (s.modules h).load path image s.next) ∨
    (a = .free h ∧ (s.step a).modules h = (s.modules h).free) := by
  cases a with
  | load path ret image =>
    by_cases hret : ret = 0
    · exact .inl ⟨nofun, by simp only [step, hret, if_true]⟩
    · by_cases heq : h = ret
      · subst heq
        exact .inr (.inl ⟨path, image, rfl, hret, by
          simp only [step, hret, if_false, Function.update_self]⟩)
      · exact .inl ⟨nofun, by
          simp only [step, hret, if_false, Function.update_of_ne heq]⟩
  | free h' =>
    by_cases heq : h = h'
    · subst heq
      exact .inr (.inr ⟨rfl, by simp only [step, Function.update_self]⟩)
    · exact .inl ⟨fun ha => heq (LoaderAction.free.inj ha).symm, by
        simp only [step, Function.update_of_ne heq]⟩

/-- Proper steps keep the counts of every loader equal. -/
theorem step_matched (hs : ∀ h, (s.modules h).Matched) (hproper : s.Proper a) (h : ℕ) :
    ((s.step a).modules h).Matched := by
  obtain ⟨-, heq⟩ | ⟨path, image, rfl, hne, heq⟩ | ⟨-, heq⟩ := step_cases s a h
  · exact heq ▸ hs h
  · exact heq ▸ (hs h).load (hproper hne) image s.next
  · exact heq ▸ (hs h).free

/-- With equal counts the entries follow the loads of the modules. -/
theorem follows_of_matched (hs : ∀ h, (s.modules h).Matched) (hproper : s.Proper a) : s.Follows a := by
  intro h
  refine ⟨(step_matched hs hproper h).1, ?_⟩
  obtain ⟨hfree, heq⟩ | ⟨path, image, rfl, -, heq⟩ | ⟨rfl, heq⟩ := step_cases s a h <;> rw [heq]
  · rw [if_neg fun hlast => hfree hlast.1]
    exact .refl _
  · rw [if_neg nofun]
    exact LoadedModule.load_keeps path image s.next
  · simpa only [true_and] using (hs h).free_follows

/-- A step that is not proper leaves a loader behind. -/
theorem step_behind (hs : ∀ h, (s.modules h).Matched) (hproper : ¬ s.Proper a) :
    ∃ h, ((s.step a).modules h).Behind := by
  cases a with
  | free => exact absurd trivial hproper
  | load path ret image =>
    obtain ⟨hret, hload⟩ := Classical.not_imp.mp hproper
    refine ⟨ret, ?_⟩
    simpa only [step, hret, if_false, Function.update_self] using
      (hs ret).load_behind hload image s.next

/-- A loader stays behind while entries follow the loads of the modules. -/
theorem step_stays_behind {h : ℕ} (hs : (s.modules h).Behind) (hfollows : s.Follows a) :
    ((s.step a).modules h).Behind := by
  obtain ⟨-, heq⟩ | ⟨path, image, -, -, heq⟩ | ⟨rfl, heq⟩ := step_cases s a h
  · exact heq ▸ hs
  · exact heq ▸ hs.load path image s.next
  · obtain ⟨l, hl, hpos, hlt⟩ := hs
    have hkeeps := (hfollows h).2
    rw [if_neg (by omega), heq] at hkeeps
    obtain ⟨l', hl', -, hpos', hlt'⟩ := LoadedModule.free_keeps hl hpos hlt hkeeps
    exact heq ▸ ⟨l', hl', hpos', hlt'⟩

/-- Frees delete a loader that is behind while its module is loaded. -/
theorem frees_not_follow {h : ℕ} (n : ℕ) {s : LoaderState} {l : ModuleLoader}
    (hl : (s.modules h).loader = some l) (hpos : 0 < l.refcount) (hlt : l.refcount < (s.modules h).count)
    (hn : l.refcount = n) :
    ¬ loaderMachine.Along Follows s ((List.replicate n h).map .free) := by
  induction n generalizing s l with
  | zero => omega
  | succ n ih =>
    rintro ⟨hfollows, hrest⟩
    have heq : (s.step (.free h)).modules h = (s.modules h).free := by
      simp only [step, Function.update_self]
    have hkeeps := (hfollows h).2
    rw [if_neg (by omega), heq] at hkeeps
    obtain ⟨l', hl', hcount, hpos', hlt'⟩ := LoadedModule.free_keeps hl hpos hlt hkeeps
    exact ih (heq ▸ hl') hpos' (heq ▸ hlt') (by omega) hrest

end LoaderState

open LoaderState

/-- Entries follow the loads of the modules, whatever is freed later, exactly in the runs whose loads
are proper. -/
theorem loaders_follow_iff (count : ℕ → ℕ) (linkage : ℕ → Option Linkage) (as : List LoaderAction) :
    (∀ frees : List ℕ,
      loaderMachine.Along Follows (.start count linkage) (as ++ frees.map .free)) ↔
    loaderMachine.Along Proper (.start count linkage) as := by
  refine Machine.along_continued_iff (fun s => ∀ h, (s.modules h).Matched)
    (fun s => ∃ h, (s.modules h).Behind) ?_ ?_ ?_ ?_ ?_ ?_ ?_ as
  · intro frees s
    refine Machine.along_of_forall (fun a ha t => ?_) s
    obtain ⟨h, -, rfl⟩ := List.mem_map.mp ha
    trivial
  · exact fun s a hs hproper => follows_of_matched hs hproper
  · exact fun s a hs hproper => ⟨_, rfl, step_matched hs hproper⟩
  · exact fun s a hs hproper => ⟨_, rfl, step_behind hs hproper⟩
  · exact fun s a ⟨h, hs⟩ hfollows => ⟨_, rfl, h, step_stays_behind hs hfollows⟩
  · rintro s ⟨h, l, hl, hpos, hlt⟩
    exact ⟨List.replicate l.refcount.toNat h, frees_not_follow _ hl hpos hlt (by omega)⟩
  · intro h
    exact ⟨nofun, nofun⟩

/-- A gauge loaded by its path and then by its name loses its loader with the first free. -/
theorem gaugeByName_not_follows :
    ¬ loaderMachine.Along Follows (.start (fun _ => 0) fun _ => none)
      [.load (ascii "GAUGES" ++ [0x5C] ++ ascii "x.gau") 1 (some ⟨.null, .null⟩),
        .load (ascii "x.gau") 1 none, .free 1] := by
  rintro ⟨-, -, hfree, -⟩
  have hkeeps := (hfree 1).2
  rw [if_neg (by decide)] at hkeeps
  obtain ⟨l, hl, -⟩ := hkeeps _ rfl
  exact Option.some_ne_none l (hl.symm.trans (by decide))

end Multicrew.Gauge
