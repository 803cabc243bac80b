import Mathlib.Data.List.Basic
import Mathlib.Data.List.Induction
import Marshal.CommandLine.Basic
import Marshal.Proofs.Data.Gives
import Marshal.Settings.Load

/-!
# Layers of settings

Layers can be put together in any grouping, and a layer that sets nothing, or one that is there
already, changes nothing.  Each setting is decided by itself: by the last layer that sets it, the
command line being the last of all, and if there is none it is what it is by default.

The layers in files are there if all of them can be read and hold settings; if not, the fault is
that of the first one that does not.  Files that need not be there are passed over if they are not.

## Main definitions

* `Setting` — one of the settings, with what it is in a layer and whether that sets it.
* `Setting.decided` — what a setting comes to.
* `Settings.loadLayers` — the layers in files that need not be there, and in one that has to be.
* `Settings.held?`, `Settings.Lacks` — the layer in a file, or why there is none.

## Main results

* `Setting.get_under`, `Setting.get_foldl` — each setting is decided by itself.
* `Settings.loadAll_eq_ok`, `Settings.loadAll_eq_error` — when layers are loaded.
* `Settings.loadLayers_decided` — all that was said above.
-/

namespace Marshal

open CommandLine

/-! ### One of the settings -/

/-- One of the settings. -/
inductive Setting where
  /-- Which messages are logged. -/
  | logLevel
  /-- The number of workers that analyse. -/
  | parseThreads
  /-- The number of workers that generate. -/
  | generateThreads
  /-- A directory whose plugin libraries are loaded. -/
  | pluginDirectory
  /-- Further plugin libraries. -/
  | pluginPaths
  /-- Further directories in which inputs are looked for. -/
  | includePaths
  /-- The directory of all headers. -/
  | outputDirectory
  deriving DecidableEq, Repr

namespace Setting

/-- What a setting can be. -/
abbrev Value : Setting → Type
  | logLevel => Option String
  | parseThreads | generateThreads => Nat
  | pluginDirectory | outputDirectory => Option FilePath
  | pluginPaths | includePaths => List FilePath

/-- What a setting is in a layer. -/
def get : (k : Setting) → Settings → k.Value
  | logLevel, s => s.logLevel
  | parseThreads, s => s.parseThreads
  | generateThreads, s => s.generateThreads
  | pluginDirectory, s => s.pluginDirectory
  | pluginPaths, s => s.pluginPaths
  | includePaths, s => s.includePaths
  | outputDirectory, s => s.outputDirectory

/-- What a setting is on a command line; which messages are logged is not said there. -/
def given : (k : Setting) → Invocation → k.Value
  | logLevel, _ => none
  | parseThreads, i => i.parseThreads
  | generateThreads, i => i.generateThreads
  | pluginDirectory, i => i.pluginDirectory
  | pluginPaths, i => i.plugins
  | includePaths, i => i.includePaths
  | outputDirectory, i => i.outputDirectory

/-- Whether it is set by that: a count that is not zero, a list that is not empty, anything else
that is there. -/
def isSet : (k : Setting) → k.Value → Bool
  | logLevel, level => level.isSome
  | parseThreads, n | generateThreads, n => n ≠ 0
  | pluginDirectory, path | outputDirectory, path => path.isSome
  | pluginPaths, paths | includePaths, paths => !paths.isEmpty

/-- What a setting is by default. -/
def unset : (k : Setting) → k.Value
  | logLevel => none
  | parseThreads | generateThreads => 0
  | pluginDirectory | outputDirectory => none
  | pluginPaths | includePaths => []

/-- What a setting comes to: the last of its values that sets it, or the default. -/
def decided (k : Setting) (values : List k.Value) : k.Value :=
  (values.reverse.find? k.isSet).getD k.unset

theorem get_unset (k : Setting) : k.get Settings.unset = k.unset := by cases k <;> rfl

theorem get_settings (k : Setting) (i : Invocation) : k.get i.settings = k.given i := by
  cases k <;> rfl

/-- Settings are the same if each of them is. -/
theorem ext_get {a b : Settings} (h : ∀ k : Setting, k.get a = k.get b) : a = b := by
  cases a
  cases b
  simp only [Settings.mk.injEq]
  exact ⟨h logLevel, h parseThreads, h generateThreads, h pluginDirectory, h pluginPaths,
    h includePaths, h outputDirectory⟩

theorem or_eq_ite {α : Type} (earlier later : Option α) :
    later.or earlier = if later.isSome then later else earlier := by cases later <;> rfl

theorem count_eq_ite (earlier later : Nat) :
    Settings.count earlier later = if decide (later ≠ 0) then later else earlier := by
  unfold Settings.count
  by_cases h : later = 0 <;> simp [h]

theorem items_eq_ite {α : Type} (earlier later : List α) :
    Settings.items earlier later = if !later.isEmpty then later else earlier := by
  cases later <;> rfl

/-- **Of two layers, the later one decides what it sets**, and nothing else. -/
theorem get_under (k : Setting) (a b : Settings) :
    k.get (a.under b) = if k.isSet (k.get b) then k.get b else k.get a := by
  cases k with
  | logLevel | pluginDirectory | outputDirectory => exact or_eq_ite _ _
  | parseThreads | generateThreads => exact count_eq_ite _ _
  | pluginPaths | includePaths => exact items_eq_ite _ _

theorem decided_concat (k : Setting) (values : List k.Value) (v : k.Value) :
    k.decided (values ++ [v]) = if k.isSet v then v else k.decided values := by
  rw [decided, List.reverse_append, List.reverse_singleton, List.singleton_append, List.find?_cons]
  cases k.isSet v <;> rfl

/-- **Of all layers, the last one that sets a setting decides it.** -/
theorem get_foldl (k : Setting) (layers : List Settings) :
    k.get (layers.foldl Settings.under Settings.unset) = k.decided (layers.map k.get) := by
  induction layers using List.reverseRecOn with
  | nil => exact k.get_unset
  | append_singleton layers layer ih =>
    rw [List.foldl_append, List.foldl_cons, List.foldl_nil, get_under, ih, List.map_append,
      List.map_singleton, decided_concat]

end Setting

namespace Settings

/-- **Layers can be put together in any grouping.** -/
theorem under_assoc (a b c : Settings) : (a.under b).under c = a.under (b.under c) := by
  refine Setting.ext_get fun k => ?_
  simp only [Setting.get_under]
  by_cases hc : k.isSet (k.get c) <;> simp [hc]

/-- A layer that is there already changes nothing. -/
theorem under_self (a : Settings) : a.under a = a := by
  refine Setting.ext_get fun k => ?_
  rw [Setting.get_under, ite_self]

/-! ### Layers in files -/

/-- The file that a fault is about. -/
def LoadFault.path : LoadFault → FilePath
  | .unreadable path => path
  | .invalid path _ => path

/-- The layer in a file, if the file can be read and holds one. -/
def held? (d : Disk) (path : FilePath) : Option Settings :=
  (d.readText? path).bind fun text => (parse text).toOption

/-- Why there is no layer in a file. -/
inductive Lacks (d : Disk) (path : FilePath) : LoadFault → Prop where
  /-- It is not there, or cannot be read. -/
  | unread (hread : d.readText? path = none) : Lacks d path (.unreadable path)
  /-- It holds something else. -/
  | unparsed {text : String} {cause : Data.Fault} (hread : d.readText? path = some text)
      (hparse : parse text = .error cause) : Lacks d path (.invalid path cause)

section

variable {d : Disk} {path : FilePath} {files : List FilePath} {fault : LoadFault}

theorem Lacks.path_eq (h : Lacks d path fault) : fault.path = path := by cases h <;> rfl

theorem loadFile_eq_ok {layer : Settings} :
    loadFile d path = .ok layer ↔ held? d path = some layer := by
  unfold loadFile held?
  cases d.readText? path with
  | none => simp
  | some text => cases hparse : parse text <;> simp [Except.mapError, Except.toOption, hparse]

theorem loadFile_eq_error : loadFile d path = .error fault ↔ Lacks d path fault := by
  constructor
  · intro h
    unfold loadFile at h
    cases hread : d.readText? path with
    | none =>
      rw [hread] at h
      cases h
      exact .unread hread
    | some text =>
      rw [hread] at h
      cases hparse : parse text with
      | error cause =>
        simp only [hparse, Except.mapError] at h
        cases h
        exact .unparsed hread hparse
      | ok layer => simp [hparse, Except.mapError] at h
  · rintro (hread | ⟨hread, hparse⟩)
    · rw [loadFile, hread]
    · simp [loadFile, hread, hparse, Except.mapError]

/-- There is a layer in a file or a reason why there is none. -/
theorem held?_eq_none_iff : held? d path = none ↔ ∃ fault, Lacks d path fault := by
  simp only [← loadFile_eq_error]
  cases hfile : loadFile d path with
  | ok layer => simp [loadFile_eq_ok.1 hfile]
  | error fault =>
    refine ⟨fun _ => ⟨fault, rfl⟩, fun _ => Option.eq_none_iff_forall_ne_some.2 fun layer h => ?_⟩
    rw [loadFile_eq_ok.2 h] at hfile
    cases hfile

/-- There is no layer where there is no file. -/
theorem held?_eq_none_of_isFile (h : d.isFile path = false) : held? d path = none := by
  have hread : d.readText? path = none := by
    unfold Disk.isFile at h
    unfold Disk.readText?
    split
    · simp_all
    · rfl
  rw [held?, hread, Option.bind_none]

/-- Layers are put on top of others as they are read. -/
theorem foldlM_under_cons (s : Settings) :
    (path :: files).foldlM (fun s path => s.under <$> loadFile d path) s =
      loadFile d path >>= fun layer =>
        files.foldlM (fun s path => s.under <$> loadFile d path) (s.under layer) := by
  rw [List.foldlM_cons]
  cases loadFile d path <;> rfl

/-- **Layers are loaded if there is one in each file.** -/
theorem loadAll_eq_ok {s : Settings} :
    loadAll d files = .ok s ↔ (∀ p ∈ files, (held? d p).isSome) ∧
      (files.filterMap (held? d)).foldl under unset = s := by
  unfold loadAll
  generalize unset = start
  induction files generalizing start with
  | nil => simp [pure, Except.pure]
  | cons path files ih =>
    rw [foldlM_under_cons, bind_eq_ok, List.forall_mem_cons, List.filterMap_cons]
    simp only [loadFile_eq_ok, ih]
    cases held? d path <;> simp

/-- **If layers are not loaded, the first file without one is why.** -/
theorem loadAll_eq_error :
    loadAll d files = .error fault ↔
      ∃ before path after, files = before ++ path :: after ∧
        (∀ p ∈ before, (held? d p).isSome) ∧ Lacks d path fault := by
  unfold loadAll
  generalize unset = start
  induction files generalizing start with
  | nil => simp [pure, Except.pure]
  | cons path files ih =>
    rw [foldlM_under_cons]
    constructor
    · intro h
      cases hfile : loadFile d path with
      | error cause =>
        rw [hfile] at h
        cases h
        exact ⟨[], path, files, rfl, by simp, loadFile_eq_error.1 hfile⟩
      | ok layer =>
        rw [hfile] at h
        obtain ⟨before, other, after, rfl, hbefore, hlacks⟩ := (ih _).1 h
        have hheld : (held? d path).isSome := by rw [loadFile_eq_ok.1 hfile]; rfl
        exact ⟨path :: before, other, after, rfl, List.forall_mem_cons.2 ⟨hheld, hbefore⟩, hlacks⟩
    · rintro ⟨before, other, after, hfiles, hbefore, hlacks⟩
      cases before with
      | nil =>
        obtain ⟨rfl, rfl⟩ := List.cons.inj hfiles
        rw [loadFile_eq_error.2 hlacks]
        rfl
      | cons first before =>
        obtain ⟨rfl, rfl⟩ := List.cons.inj hfiles
        obtain ⟨hheld, hbefore⟩ := List.forall_mem_cons.1 hbefore
        obtain ⟨layer, hlayer⟩ := Option.isSome_iff_exists.1 hheld
        rw [loadFile_eq_ok.2 hlayer]
        exact (ih _).2 ⟨before, other, after, rfl, hbefore, hlacks⟩

/-- Layers are not loaded if there is none in one of the files. -/
theorem exists_loadAll_eq_error :
    (∃ fault, loadAll d files = .error fault) ↔ ∃ p ∈ files, held? d p = none := by
  constructor
  · rintro ⟨fault, h⟩
    obtain ⟨before, path, after, rfl, -, hlacks⟩ := loadAll_eq_error.1 h
    exact ⟨path, by simp, held?_eq_none_iff.2 ⟨fault, hlacks⟩⟩
  · rintro ⟨p, hp, hnone⟩
    cases h : loadAll d files with
    | error fault => exact ⟨fault, rfl⟩
    | ok s =>
      have hheld := (loadAll_eq_ok.1 h).1 p hp
      rw [hnone] at hheld
      cases hheld

end

/-! ### Files that need not be there -/

/-- The files that are looked at: those of some that are there, and one that was asked for. -/
def consulted (d : Disk) (optional : List FilePath) (explicit : Option FilePath) : List FilePath :=
  optional.filter d.isFile ++ explicit.toList

/-- The layers in files that need not be there, and in one that has to be. -/
def loadLayers (d : Disk) (optional : List FilePath) (explicit : Option FilePath) :
    Except LoadFault Settings :=
  loadAll d (consulted d optional explicit)

theorem load_eq (d : Disk) (home : Home) (root : FilePath) (explicit : Option FilePath) :
    load d home root explicit =
      loadLayers d (home.file?.toList ++ [projectFile root]) explicit := rfl

section

variable {d : Disk} {optional : List FilePath} {explicit : Option FilePath}

/-- A file that is looked at and holds no layer is there, or it is the one that was asked for and is
not. -/
theorem exists_held?_eq_none_iff :
    (∃ p ∈ consulted d optional explicit, held? d p = none) ↔
      (∃ p ∈ consulted d optional explicit, d.isFile p ∧ held? d p = none) ∨
        ∃ p, explicit = some p ∧ d.isFile p = false := by
  constructor
  · rintro ⟨p, hp, hnone⟩
    cases hfile : d.isFile p with
    | true => exact .inl ⟨p, hp, hfile, hnone⟩
    | false =>
      rcases List.mem_append.1 hp with hoptional | hexplicit
      · rw [List.mem_filter, hfile] at hoptional
        exact absurd hoptional.2 Bool.false_ne_true
      · exact .inr ⟨p, Option.mem_toList.1 hexplicit, hfile⟩
  · rintro (⟨p, hp, -, hnone⟩ | ⟨p, rfl, hfile⟩)
    · exact ⟨p, hp, hnone⟩
    · exact ⟨p, List.mem_append_right _ (by simp), held?_eq_none_of_isFile hfile⟩

end

/-- **Each setting is decided by the last layer that sets it.**  Layers form a monoid in which each
is its own double.  If each of the files that are looked at holds a layer, then there are settings;
on top of them comes the command line, and each setting is the last of its values that sets it,
or its default.  If not, the fault is that of the first file without a layer; this is one that
cannot be read or parsed, or the file that was asked for and is not there. -/
theorem loadLayers_decided :
    ((∀ a b c : Settings, (a.under b).under c = a.under (b.under c)) ∧
      ∀ a : Settings, unset.under a = a ∧ a.under unset = a ∧ a.under a = a) ∧
    ∀ (d : Disk) (optional : List FilePath) (explicit : Option FilePath),
      let files := consulted d optional explicit
      (∀ home root, load d home root explicit =
        loadLayers d (home.file?.toList ++ [projectFile root]) explicit) ∧
      ((∀ p ∈ files, (held? d p).isSome) ↔ ∃ s, loadLayers d optional explicit = .ok s) ∧
      (∀ s, loadLayers d optional explicit = .ok s → ∀ (i : CommandLine.Invocation) (k : Setting),
        k.get (i.applyTo s) = k.decided ((files.filterMap (held? d)).map k.get ++ [k.given i])) ∧
      (∀ fault, loadLayers d optional explicit = .error fault ↔
        ∃ before path after, files = before ++ path :: after ∧
          (∀ p ∈ before, (held? d p).isSome) ∧ Lacks d path fault ∧ fault.path = path) ∧
      ((∃ fault, loadLayers d optional explicit = .error fault) ↔
        (∃ p ∈ files, d.isFile p ∧ held? d p = none) ∨
          ∃ p, explicit = some p ∧ d.isFile p = false) := by
  refine ⟨⟨under_assoc, fun a => ⟨unset_under a, under_unset a, under_self a⟩⟩, ?_⟩
  intro d optional explicit files
  refine ⟨fun home root => load_eq d home root explicit,
    ⟨fun h => ⟨_, loadAll_eq_ok.2 ⟨h, rfl⟩⟩, fun ⟨s, h⟩ => (loadAll_eq_ok.1 h).1⟩, ?_, ?_, ?_⟩
  · intro s h i k
    obtain ⟨-, rfl⟩ := loadAll_eq_ok.1 h
    rw [CommandLine.Invocation.applyTo, Setting.get_under, Setting.get_foldl, Setting.get_settings,
      Setting.decided_concat]
  · intro fault
    refine loadAll_eq_error.trans ?_
    refine exists_congr fun before => exists_congr fun path => exists_congr fun after => ?_
    exact and_congr_right fun _ => and_congr_right fun _ =>
      ⟨fun h => ⟨h, h.path_eq⟩, fun h => h.1⟩
  · exact exists_loadAll_eq_error.trans exists_held?_eq_none_iff

/-- A disk with three layers, two of which set the same count. -/
def stacked : Disk where
  entries := [(["user.toml"], .file (.text (.ofText
      "log_level = \"warn\"\n[pipeline]\nparse_threads = 2\ngenerate_threads = 2\n"))),
    (["project.toml"], .file (.text (.ofText "[pipeline]\ngenerate_threads = 8\n"))),
    (["asked.toml"], .file (.text (.ofText "[output]\ndirectory = \"out\"\n")))]
  here := []

/-- A command line that sets a count again. -/
def regenerate : CommandLine.Invocation :=
  { CommandLine.Invocation.empty with generateThreads := 1, plugins := [⟨"p.so"⟩] }

theorem loadLayers_decided_stacked :
    (∃ s, loadLayers stacked [⟨"user.toml"⟩, ⟨"none.toml"⟩, ⟨"project.toml"⟩]
        (some ⟨"asked.toml"⟩) = .ok s ∧
      regenerate.applyTo s = ⟨some "warn", 2, 1, none, [⟨"p.so"⟩], [], some ⟨"out"⟩⟩) ∧
    loadLayers stacked [⟨"user.toml"⟩] (some ⟨"none.toml"⟩) =
      .error (.unreadable ⟨"none.toml"⟩) := by
  obtain ⟨-, hload⟩ := loadLayers_decided
  constructor
  · obtain ⟨-, hheld, hdecided, -⟩ :=
      hload stacked [⟨"user.toml"⟩, ⟨"none.toml"⟩, ⟨"project.toml"⟩] (some ⟨"asked.toml"⟩)
    obtain ⟨s, hs⟩ := hheld.1 (by decide +kernel)
    have hlayers : (consulted stacked [⟨"user.toml"⟩, ⟨"none.toml"⟩, ⟨"project.toml"⟩]
        (some ⟨"asked.toml"⟩)).filterMap (held? stacked) =
          [⟨some "warn", 2, 2, none, [], [], none⟩, ⟨none, 0, 8, none, [], [], none⟩,
            ⟨none, 0, 0, none, [], [], some ⟨"out"⟩⟩] := by decide +kernel
    refine ⟨s, hs, Setting.ext_get fun k => (hdecided s hs regenerate k).trans ?_⟩
    rw [hlayers]
    cases k <;> rfl
  · obtain ⟨-, -, -, hfault, -⟩ := hload stacked [⟨"user.toml"⟩] (some ⟨"none.toml"⟩)
    have hfiles : consulted stacked [⟨"user.toml"⟩] (some ⟨"none.toml"⟩) =
        [⟨"user.toml"⟩] ++ ⟨"none.toml"⟩ :: [] := by decide +kernel
    exact (hfault _).2 ⟨_, _, _, hfiles, by decide +kernel, .unread (by decide +kernel), rfl⟩

end Settings
end Marshal
