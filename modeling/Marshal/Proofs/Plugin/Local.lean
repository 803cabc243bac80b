import Marshal.Proofs.Plugin.Directory
import Marshal.Proofs.Plugin.Loaded
import Marshal.Proofs.Schema.Renumbered
import Marshal.Header.Code
import Marshal.Run.Program

/-!
# Plugins that see no numbers

What a plugin gives for a node is meant to depend on what can be reached from the node alone, and
not on the number it has in its graph or on what else there is.  A plugin like this is **local**.
The plugin for JSON is, and so is every plugin that is reached through a table, which is sent the
bundle of a node and nothing else; so all plugins of a run are.

The code for a source file is then the same wherever its types are embedded.

## Main definitions

* `Plugin.IsLocal`, `Registry.IsLocal` — plugins that see what can be reached.

## Main results

* `isLocal_json`, `isLocal_toPlugin` — plugins that are local.
* `isLocal_loadPlugins` — the plugins of a run are local.
* `Header.generate_map` — the code for a source file under other numbers.
-/

namespace Marshal

open Schema

namespace Plugin

/-- What a plugin gives for a node depends on what can be reached from it alone. -/
def IsLocal (p : Plugin) : Prop :=
  ∀ (g h : Graph) (a b : NodeId), g.Closed → h.Closed → a < g.size → b < h.size →
    g.copy a = h.copy b → p.generate g a = p.generate h b

/-- **The plugin for JSON is local.** -/
theorem isLocal_json (priority : Nat) : (json priority).IsLocal := by
  intro g h a b hg hh ha hb hcopy
  rw [← generate_copy priority hg ha, ← generate_copy priority hh hb, hcopy]

/-- Nodes with the same copy make the same request. -/
theorem requestFor_eq {g h : Graph} {a b : NodeId} (hg : g.Closed) (hh : h.Closed) (ha : a < g.size)
    (hb : b < h.size) (hcopy : g.copy a = h.copy b) : requestFor g a = requestFor h b := by
  unfold requestFor
  rw [← Bundle.encode_unlinked (Bundle.capture g a), ← Bundle.encode_unlinked (Bundle.capture h b),
    ← Bundle.capture_copy hg ha, ← Bundle.capture_copy hh hb, hcopy]

/-- **A plugin that is reached through a table is local**, whatever answers there. -/
theorem isLocal_toPlugin {t : Table} {p : Plugin} (h : t.toPlugin = .ok p) : p.IsLocal := by
  unfold Table.toPlugin at h
  split at h
  · cases h
  · split at h
    · cases h
    · cases h
    · obtain rfl := Except.ok.inj h
      intro g h a b hg hh ha hb hcopy
      show (t.respond _).result = (t.respond _).result
      rw [requestFor_eq hg hh ha hb hcopy]

theorem isLocal_library {path : FilePath} {library : Option Library} {p : Plugin}
    (h : Library.plugin path library = .ok p) : p.IsLocal := by
  unfold Library.plugin at h
  split at h
  · cases h
  · cases h
  · cases h
  · split at h
    · rename_i q hq
      obtain rfl := Except.ok.inj h
      exact isLocal_toPlugin hq
    · cases h
    · cases h

/-! ### Registries -/

/-- All plugins are local. -/
def Registry.IsLocal (r : Registry) : Prop := ∀ e ∈ r.entries, e.plugin.IsLocal

theorem Registry.IsLocal.register {r : Registry} (hr : r.IsLocal) {p : Plugin} (hp : p.IsLocal)
    (priority : Nat) : (r.register p priority).2.IsLocal := by
  unfold Registry.register
  split
  · intro e he
    rcases Registry.mem_insert he with rfl | he
    · exact hp
    · exact hr e he
  · exact hr

theorem Registry.isLocal_builtin : Registry.builtin.IsLocal :=
  Registry.IsLocal.register (r := .empty) (fun _ he => nomatch he) (isLocal_json 0) 0

theorem Registry.IsLocal.get? {r : Registry} (hr : r.IsLocal) {format : String} {p : Plugin}
    (h : r.get? format = some p) : p.IsLocal := by
  obtain ⟨e, he, rfl⟩ := Option.map_eq_some_iff.1 h
  exact hr e (List.mem_of_find?_eq_some he)

theorem Registry.IsLocal.after {r : Registry} (hr : r.IsLocal) {plugins : List Plugin}
    (h : ∀ p ∈ plugins, p.IsLocal) : (r.after (plugins.map .registerPlugin)).IsLocal := by
  induction plugins generalizing r with
  | nil => exact hr
  | cons p plugins ih =>
    obtain ⟨hp, hplugins⟩ := List.forall_mem_cons.1 h
    exact ih (hr.register hp p.priority) hplugins

/-- The plugins that files hand out are local. -/
theorem isLocal_of_mem_filterMap {d : Disk} {paths : List FilePath} {p : Plugin}
    (h : p ∈ paths.filterMap (plugin? d)) : p.IsLocal := by
  obtain ⟨path, -, hp⟩ := List.mem_filterMap.1 h
  unfold plugin? at hp
  cases hlibrary : Library.plugin path (d.library? path) with
  | error fault => rw [hlibrary] at hp; cases hp
  | ok q =>
    rw [hlibrary] at hp
    obtain rfl := Option.some.inj hp
    exact isLocal_library hlibrary

theorem Loader.isLocal_foldl_tryFile (d : Disk) (paths : List FilePath) {l : Loader}
    (h : l.registry.IsLocal) : (paths.foldl (Loader.tryFile d) l).registry.IsLocal := by
  have heq : paths.foldl (Loader.tryFile d) l = l.after (paths.filterMap (plugin? d)) := by
    rw [← Loader.foldl_loadFile]
    exact congrArg (paths.foldl · l) (funext fun l => funext fun path => l.tryFile_eq d path)
  rw [heq]
  exact h.after fun _ => isLocal_of_mem_filterMap

theorem Loader.isLocal_loadDirectory (d : Disk) (directory : FilePath) {l : Loader}
    (h : l.registry.IsLocal) : (l.loadDirectory d directory).1.registry.IsLocal := by
  rw [Loader.loadDirectory_eq, Loader.loadListed_eq]
  exact h.after fun _ => isLocal_of_mem_filterMap

end Plugin

open Plugin

/-- **The plugins of a run are local**, whatever the libraries do that they come from. -/
theorem Run.isLocal_loadPlugins (d : Disk) (s : Settings) : (Run.loadPlugins d s).IsLocal := by
  unfold Run.loadPlugins
  refine Loader.isLocal_foldl_tryFile d _ ?_
  cases s.pluginDirectory with
  | none => exact Registry.isLocal_builtin
  | some directory => exact Loader.isLocal_loadDirectory d directory Registry.isLocal_builtin

namespace Header

variable {r : Registry} {move : NodeId → NodeId} {g h : Graph}

theorem request_move (hr : r.IsLocal) (he : Graph.Embeds move g h) (hg : g.Closed) (hh : h.Closed)
    {a : NodeId} (ha : a < g.size) (typeName format : String) :
    request r h (move a) typeName format = request r g a typeName format := by
  unfold request
  cases hp : r.get? format with
  | none => rfl
  | some p =>
    have hcopy := he.copy_eq hg ha
    simp only [hr.get? hp h g (move a) a hh hg (he.lt_size ha) ha hcopy]

theorem addNode_move (hr : r.IsLocal) (he : Graph.Embeds move g h) (hg : g.Closed) (hh : h.Closed)
    {a : NodeId} (ha : a < g.size) (c : FileCode) : addNode r h c (move a) = addNode r g c a := by
  have hnode := he.node? a
  obtain ⟨n, hn⟩ := Graph.node?_eq_some_of_lt ha
  rw [hn, Option.map_some] at hnode
  have hanswers : answers r h (move a) (n.mapLinks move) = answers r g a n := by
    unfold answers
    show (if n.isPod then [] else n.formats.map (request r h (move a) n.name)) = _
    rw [funext fun format => request_move hr he hg hh ha n.name format]
  simp only [addNode, hn, hnode, hanswers]
  rfl

/-- **The code for a source file does not depend on the numbers of its types**, nor on what else is
in the graph. -/
theorem generate_map (hr : r.IsLocal) (he : Graph.Embeds move g h) (hg : g.Closed) (hh : h.Closed)
    {ids : List NodeId} (hids : ∀ id ∈ ids, id < g.size) :
    generate r h (ids.map move) = generate r g ids := by
  unfold generate
  rw [List.foldl_map]
  generalize FileCode.empty = c
  induction ids generalizing c with
  | nil => rfl
  | cons id ids ih =>
    obtain ⟨hid, hids⟩ := List.forall_mem_cons.1 hids
    rw [List.foldl_cons, List.foldl_cons, addNode_move hr he hg hh hid]
    exact ih hids _

end Header
end Marshal
