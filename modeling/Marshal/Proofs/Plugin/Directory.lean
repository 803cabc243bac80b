import Marshal.Plugin.Loader
import Marshal.Proofs.Disk.Spellings
import Marshal.Proofs.Plugin.Registered

/-!
# What loading changes

Loading a library either registers its plugin and keeps the library, or changes nothing.  So what
loading several comes to depends on the plugins they hand out, in this order; and since a directory
is gone through in the order of paths, the order in which its names come does not matter.

## Main definitions

* `plugin?` — the plugin that a file hands out.
* `Loader.with` — a loader after some plugins were loaded.

## Main results

* `run_load` — what loading one library changes.
* `loadAll_eq` — what loading several libraries changes.
* `loadListed_perm` — the order of names in a directory does not matter.
* `load_spec` — all of it together.
-/

namespace Marshal
namespace Plugin

/-- The plugin that a file hands out, if it is a library that can be used. -/
def plugin? (d : Disk) (path : FilePath) : Option Plugin :=
  (Library.plugin path (d.library? path)).toOption

/-- What is asked of a library does not depend on how its path is spelled. -/
theorem toOption_plugin (p q : FilePath) (library : Option Library) :
    (Library.plugin p library).toOption = (Library.plugin q library).toOption := by
  unfold Library.plugin
  cases library with
  | none => rfl
  | some library =>
    cases library with
    | noFactory => rfl
    | noTable => rfl
    | table t =>
      cases ht : t.toPlugin with
      | ok plugin => simp only [ht]
      | error fault => cases fault <;> simp only [ht] <;> rfl

/-- A plugin that is handed out has the name and the priority that its table reports. -/
theorem reported_of_plugin? {d : Disk} {path : FilePath} {plugin : Plugin}
    (h : plugin? d path = some plugin) : ∃ t, d.library? path = some (.table t) ∧
      t.version = tableVersion ∧ tableText? t.format = some plugin.format ∧ plugin.format ≠ "" ∧
      t.priority = plugin.priority := by
  unfold plugin? Library.plugin at h
  split at h
  · cases h
  · cases h
  · cases h
  · rename_i t hlibrary
    refine ⟨t, hlibrary, ?_⟩
    unfold Table.toPlugin at h
    split at h
    · rename_i q hq
      obtain rfl := Option.some.inj h
      split at hq
      · cases hq
      · rename_i hversion
        split at hq
        · cases hq
        · cases hq
        · rename_i hne hformat
          obtain rfl := Except.ok.inj hq
          exact ⟨Decidable.not_not.1 hversion, hformat, fun h => hne h, rfl⟩
    · cases h
    · cases h

namespace Loader

variable (d : Disk) (l : Loader)

/-! ### One library -/

/-- What loading one library changes: nothing, unless it has a plugin that can be used. -/
theorem run_load (path : FilePath) :
    (load d path).run l = match Library.plugin path (d.library? path) with
      | .ok plugin => .ok () (keep (register plugin l))
      | .error fault => .error fault l := by
  unfold load
  cases Library.plugin path (d.library? path) <;> rfl

/-! ### Several libraries -/

/-- A loader after some plugins were loaded. -/
def after (plugins : List Plugin) : Loader :=
  ⟨l.libraries + plugins.length, l.registry.after (plugins.map .registerPlugin)⟩

theorem after_cons (plugin : Plugin) (plugins : List Plugin) :
    l.after (plugin :: plugins) = (keep (register plugin l)).after plugins := by
  simp only [after, keep, register, List.length_cons, List.map_cons, Registry.after,
    List.foldl_cons, Call.run]
  rw [Nat.add_right_comm, Nat.add_assoc l.libraries]

theorem loadNext_of_none {path : FilePath} (h : plugin? d path = none) (count : Nat) :
    loadNext d (l, count) path = (l, count) := by
  rw [loadNext, run_load]
  cases hp : Library.plugin path (d.library? path) with
  | error fault => rfl
  | ok plugin => rw [plugin?, hp] at h; cases h

theorem loadNext_of_some {path : FilePath} {plugin : Plugin} (h : plugin? d path = some plugin)
    (count : Nat) : loadNext d (l, count) path = (keep (register plugin l), count + 1) := by
  rw [loadNext, run_load]
  cases hp : Library.plugin path (d.library? path) with
  | error fault => rw [plugin?, hp] at h; cases h
  | ok plugin' =>
    obtain rfl : plugin' = plugin := by simpa [plugin?, hp, Except.toOption] using h
    rfl

/-- **Loading several libraries registers the plugins they hand out**, in this order, and counts
them. -/
theorem loadAll_eq (paths : List FilePath) :
    l.loadAll d paths =
      (l.after (paths.filterMap (plugin? d)), (paths.filterMap (plugin? d)).length) := by
  -- the count goes on from wherever it was
  have key (count : Nat) : paths.foldl (loadNext d) (l, count) =
      (l.after (paths.filterMap (plugin? d)), count + (paths.filterMap (plugin? d)).length) := by
    induction paths generalizing l count with
    | nil => rfl
    | cons path paths ih =>
      rw [List.foldl_cons]
      cases hp : plugin? d path with
      | none => rw [loadNext_of_none d l hp, List.filterMap_cons_none hp, ih]
      | some plugin =>
        rw [loadNext_of_some d l hp, List.filterMap_cons_some hp, ih, after_cons, List.length_cons,
          Nat.add_assoc, Nat.add_comm 1]
  have hall := key 0
  rw [Nat.zero_add] at hall
  exact hall

/-- A library that was passed over has left the loader as it was. -/
theorem tryFile_eq (path : FilePath) : l.tryFile d path = (l.loadFile d path).toOption.getD l := by
  rw [tryFile, loadFile, run_load]
  cases Library.plugin path (d.library? path) <;> rfl

/-- Loading files one at a time, passing over those that cannot be used, comes to the same. -/
theorem foldl_loadFile (paths : List FilePath) :
    paths.foldl (fun l path => (l.loadFile d path).toOption.getD l) l =
      l.after (paths.filterMap (plugin? d)) := by
  induction paths generalizing l with
  | nil => rfl
  | cons path paths ih =>
    rw [List.foldl_cons, ih, loadFile, run_load]
    cases hp : Library.plugin path (d.library? path) with
    | error fault =>
      have hnone : plugin? d path = none := by rw [plugin?, hp]; rfl
      rw [List.filterMap_cons_none hnone]
      rfl
    | ok plugin =>
      have hsome : plugin? d path = some plugin := by rw [plugin?, hp]; rfl
      rw [List.filterMap_cons_some hsome, after_cons]
      rfl

/-! ### Directories -/

/-- Two sorted lists of the same paths agree path by path, up to spelling. -/
theorem forall₂_same_of_sorted {ps qs : List FilePath} (hperm : ps.Perm qs)
    (hps : ps.Pairwise fun p q => (p.compare q).isLE)
    (hqs : qs.Pairwise fun p q => (p.compare q).isLE) :
    List.Forall₂ (fun p q => p.same q = true) ps qs := by
  have hsorted {ps : List FilePath} (h : ps.Pairwise fun p q => (p.compare q).isLE) :
      (ps.map FilePath.components).Pairwise fun a b =>
        (List.compareLex Component.compare a b).isLE = true := by
    simpa [List.pairwise_map, FilePath.compare_eq] using h
  have hcomponents : ps.map FilePath.components = qs.map FilePath.components := by
    refine (hperm.map _).eq_of_pairwise (fun a b _ _ hab hba => ?_) (hsorted hps) (hsorted hqs)
    exact Std.LawfulEqCmp.eq_of_compare (Std.OrientedCmp.isLE_antisymm hab hba)
  have hforall : List.Forall₂ (· = ·) (ps.map FilePath.components) (qs.map FilePath.components) := by
    rw [List.forall₂_eq_eq_eq]
    exact hcomponents
  rw [List.forall₂_map_left_iff, List.forall₂_map_right_iff] at hforall
  exact hforall.imp fun p q h => decide_eq_true h

section

variable {d : Disk}

/-- The libraries in a directory are those files, and they are in the order of their paths. -/
theorem librariesAmong_spec (directory : FilePath) (names : List String) :
    (librariesAmong d directory names).Perm
      ((names.map fun name => directory.join ⟨name⟩).filter
        fun path => d.isFile path && isLibraryName path) ∧
    (librariesAmong d directory names).Pairwise fun p q => (p.compare q).isLE := by
  refine ⟨List.mergeSort_perm _ _, ?_⟩
  refine List.pairwise_mergeSort (fun p q r => Std.TransCmp.isLE_trans) (fun p q => ?_) _
  have hswap : q.compare p = (p.compare q).swap := Std.OrientedCmp.eq_swap
  rw [hswap]
  cases p.compare q <;> rfl

/-- Two spellings of the path of a file hand out the same plugin. -/
theorem plugin?_eq_of_same {p q : FilePath} (hsame : p.same q = true) (hp : d.isFile p = true)
    (hq : d.isFile q = true) : plugin? d p = plugin? d q := by
  rw [plugin?, plugin?, Disk.library?_eq_of_same hsame hp hq]
  exact toOption_plugin p q _

/-- **In whatever order the names in a directory come, the same plugins are handed out**, one after
the other. -/
theorem filterMap_librariesAmong_perm (directory : FilePath) {names names' : List String}
    (h : names.Perm names') : (librariesAmong d directory names).filterMap (plugin? d) =
      (librariesAmong d directory names').filterMap (plugin? d) := by
  obtain ⟨hperm, hsorted⟩ := librariesAmong_spec (d := d) directory names
  obtain ⟨hperm', hsorted'⟩ := librariesAmong_spec (d := d) directory names'
  -- the two lists may differ in the order of spellings of one path, but these hand out the same
  have hall := hperm.trans (((h.map _).filter _).trans hperm'.symm)
  have hsame := forall₂_same_of_sorted hall hsorted hsorted'
  have hfile : ∀ p ∈ librariesAmong d directory names, d.isFile p = true := fun p hp => by
    have hmem := (List.mem_filter.1 (hperm.mem_iff.1 hp)).2
    exact (Bool.and_eq_true_iff.1 hmem).1
  have hfile' : ∀ p ∈ librariesAmong d directory names', d.isFile p = true := fun p hp =>
    hfile p (hall.mem_iff.2 hp)
  generalize librariesAmong d directory names = ps at hsame hfile
  generalize librariesAmong d directory names' = qs at hsame hfile'
  induction hsame with
  | nil => rfl
  | @cons p q ps qs hpq _ ih =>
    obtain ⟨hp, hps⟩ := List.forall_mem_cons.1 hfile
    obtain ⟨hq, hqs⟩ := List.forall_mem_cons.1 hfile'
    rw [List.filterMap_cons, List.filterMap_cons, plugin?_eq_of_same hpq hp hq, ih hps hqs]

/-- What loading the libraries among some names comes to. -/
theorem loadListed_eq (directory : FilePath) (names : List String) :
    l.loadListed d directory names =
      (l.after ((librariesAmong d directory names).filterMap (plugin? d)),
        ((librariesAmong d directory names).filterMap (plugin? d)).length) :=
  l.loadAll_eq d _

theorem loadListed_perm (directory : FilePath) {names names' : List String}
    (h : names.Perm names') :
    l.loadListed d directory names = l.loadListed d directory names' := by
  rw [loadListed_eq, loadListed_eq, filterMap_librariesAmong_perm directory h]

theorem loadDirectory_eq (directory : FilePath) :
    l.loadDirectory d directory = l.loadListed d directory ((d.listing? directory).getD []) := by
  unfold loadDirectory
  cases d.listing? directory with
  | none => simp [loadListed, librariesAmong, loadAll]
  | some names => rfl

end

/-- **Loading is all or nothing for each library, and does not depend on the order in which the
names in a directory come.**  A load that fails leaves the loader as it was; one that succeeds
keeps one library, and registers one plugin with the name and priority that it reports.  The
libraries of a directory are loaded one by one in the order of their paths.  So the registry
afterwards has the plugins of those that can be used registered in this order, and their number is
what is returned and by how much the number of libraries grows. -/
theorem load_spec (d : Disk) (l : Loader) :
    (∀ path fault after, (load d path).run l = .error fault after →
      after = l ∧ plugin? d path = none) ∧
    (∀ path after, (load d path).run l = .ok () after →
      ∃ t plugin, d.library? path = some (.table t) ∧ plugin? d path = some plugin ∧
        tableText? t.format = some plugin.format ∧
        after.registry = (l.registry.register plugin t.priority).2 ∧
        after.libraries = l.libraries + 1) ∧
    ∀ directory names, names.Perm ((d.listing? directory).getD []) →
      ∃ paths : List FilePath,
        paths.Perm ((names.map fun name => directory.join ⟨name⟩).filter
          fun path => d.isFile path && isLibraryName path) ∧
        (paths.Pairwise fun p q => (p.compare q).isLE) ∧
        l.loadListed d directory names = l.loadDirectory d directory ∧
        (l.loadDirectory d directory).1 =
          paths.foldl (fun l path => (l.loadFile d path).toOption.getD l) l ∧
        (l.loadDirectory d directory).1.registry =
          (paths.filterMap (plugin? d)).foldl (fun r p => (r.register p p.priority).2) l.registry ∧
        (l.loadDirectory d directory).2 = paths.countP (fun path => (plugin? d path).isSome) ∧
        (l.loadDirectory d directory).1.libraries =
          l.libraries + paths.countP (fun path => (plugin? d path).isSome) := by
  refine ⟨fun path fault after h => ?_, fun path after h => ?_, fun directory names hnames => ?_⟩
  · rw [run_load] at h
    cases hp : Library.plugin path (d.library? path) with
    | ok plugin => rw [hp] at h; cases h
    | error cause =>
      rw [hp] at h
      obtain ⟨-, rfl⟩ := EStateM.Result.error.inj h
      exact ⟨rfl, by rw [plugin?, hp]; rfl⟩
  · rw [run_load] at h
    cases hp : Library.plugin path (d.library? path) with
    | error cause => rw [hp] at h; cases h
    | ok plugin =>
      rw [hp] at h
      obtain ⟨-, rfl⟩ := EStateM.Result.ok.inj h
      have hplugin : plugin? d path = some plugin := by rw [plugin?, hp]; rfl
      obtain ⟨t, hlibrary, -, hformat, -, hpriority⟩ := reported_of_plugin? hplugin
      exact ⟨t, plugin, hlibrary, hplugin, hformat, by rw [hpriority]; rfl, rfl⟩
  · obtain ⟨hperm, hsorted⟩ := librariesAmong_spec (d := d) directory names
    have hsame : l.loadListed d directory names = l.loadDirectory d directory := by
      rw [loadDirectory_eq, loadListed_perm l directory hnames]
    have hcount (paths : List FilePath) : (paths.filterMap (plugin? d)).length =
        paths.countP fun path => (plugin? d path).isSome := by
      rw [List.length_filterMap_eq_countP]
    refine ⟨_, hperm, hsorted, hsame, ?_⟩
    rw [← hsame, loadListed_eq]
    refine ⟨(l.foldl_loadFile d _).symm, ?_, hcount _, ?_⟩
    · exact List.foldl_map ..
    · rw [← hcount]
      rfl

/-- A directory with libraries that can and cannot be used, of either ending, and with other
things. -/
def mixedDisk : Disk :=
  let table (version priority : Nat) (format : String) : Content :=
    .library (.table ⟨version, priority, some (Raw.ofText format), none, fun _ => ⟨0, none⟩⟩)
  ⟨[(["p"], .directory), (["p", "z.so"], .file (table 2 3 "JSON")),
    (["p", "b.so"], .file (table 2 3 "JSON")), (["p", "new.dylib"], .file (table 2 5 "XML")),
    (["p", "old.dylib"], .file (table 1 9 "JSON")),
    (["p", "text.so"], .file (.text [])), (["p", "bare.so"], .file (.library .noFactory)),
    (["p", "null.so"], .file (.library .noTable)), (["p", "name.so"], .file (table 2 9 "")),
    (["p", "d.so"], .directory), (["p", "notes.txt"], .file (table 2 9 "JSON"))], []⟩

theorem load_spec_mixed :
    let l := Loader.new .builtin
    let names := ["z.so", "notes.txt", "d.so", "name.so", "null.so", "bare.so", "text.so",
      "old.dylib", "new.dylib", "b.so"]
    (∃ fault after, (load mixedDisk ⟨"/p/old.dylib"⟩).run l = .error fault after ∧ after = l) ∧
    (∀ path ∈ [⟨"/p/b.so"⟩, ⟨"/p/new.dylib"⟩], ∃ after,
      (load mixedDisk path).run l = .ok () after ∧ after.libraries = 1) ∧
    names.Perm ((mixedDisk.listing? ⟨"/p"⟩).getD []) ∧
    l.loadListed mixedDisk ⟨"/p"⟩ names = l.loadDirectory mixedDisk ⟨"/p"⟩ ∧
    (l.loadDirectory mixedDisk ⟨"/p"⟩).2 = 3 ∧
    (l.loadDirectory mixedDisk ⟨"/p"⟩).1.libraries = 3 := by
  intro l names
  obtain ⟨hfail, hload, hdirectory⟩ := load_spec mixedDisk l
  have hold : (plugin? mixedDisk ⟨"/p/old.dylib"⟩).isSome = false := by decide +kernel
  have hnew : ∀ path ∈ [⟨"/p/b.so"⟩, ⟨"/p/new.dylib"⟩],
      (plugin? mixedDisk path).isSome = true := by decide +kernel
  have hnames : names.Perm ((mixedDisk.listing? ⟨"/p"⟩).getD []) := by decide +kernel
  refine ⟨?_, fun path hpath => ?_, hnames, ?_⟩
  · cases hrun : (load mixedDisk ⟨"/p/old.dylib"⟩).run l with
    | error fault after => exact ⟨fault, after, rfl, (hfail _ fault after hrun).1⟩
    | ok _ after =>
      obtain ⟨-, plugin, -, hplugin, -⟩ := hload _ after hrun
      rw [hplugin] at hold
      cases hold
  · have hpath := hnew path hpath
    cases hrun : (load mixedDisk path).run l with
    | error fault after =>
      rw [(hfail _ fault after hrun).2] at hpath
      cases hpath
    | ok _ after =>
      obtain ⟨-, -, -, -, -, -, hlibraries⟩ := hload _ after hrun
      exact ⟨after, rfl, hlibraries⟩
  · obtain ⟨paths, hperm, -, hsame, -, -, hnumber, hlibraries⟩ := hdirectory ⟨"/p"⟩ names hnames
    have hthree : paths.countP (fun path => (plugin? mixedDisk path).isSome) = 3 := by
      rw [hperm.countP_eq]
      decide +kernel
    rw [hthree] at hnumber hlibraries
    exact ⟨hsame, hnumber, hlibraries⟩

end Loader
end Plugin
end Marshal
