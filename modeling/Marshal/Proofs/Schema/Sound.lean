import Marshal.Proofs.Schema.Contents
import Marshal.Proofs.Schema.Relinked
import Marshal.Proofs.Schema.Scoping

/-!
# Stores whose numbers are those of nodes

In a **sound** store all links, all types of the trees and all names are numbers of nodes, and the
trees are in the order of their paths.  The store of a run is sound before and after it is linked,
since each file is: what is read from a schema file holds no links, and linking sets only such as
its names stand for.

## Main definitions

* `Analysis.Sound`, `Store.Sound` — all numbers are those of nodes.

## Main results

* `Description.sound_analysis` — the analysis of a description is sound.
* `Store.Sound.merge`, `Store.Sound.link`, `sound_mergeAll` — the store of a run is sound.
-/

namespace Marshal
namespace Schema

/-! ### Graphs -/

namespace Names

/-- What a spelling stands for has a name. -/
theorem get?_of_resolve? {names : Names} {spelling : String} {id : NodeId}
    (h : names.resolve? spelling = some id) : ∃ name, names.get? name = some id := by
  unfold resolve? at h
  split at h
  · cases h
  · rw [Option.orElse_eq_orElse, Option.orElse_eq_or, Option.or_eq_some_iff] at h
    rcases h with h | ⟨-, h⟩
    · exact ⟨spelling, h⟩
    · obtain ⟨name, -, h⟩ := Option.bind_eq_some_iff.1 h
      exact ⟨name, h⟩

/-- All names stand for nodes of a graph. -/
def Within (names : Names) (g : Graph) : Prop :=
  ∀ name id, names.get? name = some id → id < g.size

theorem Within.resolve? {names : Names} {g : Graph} (h : names.Within g) {spelling : String}
    {id : NodeId} (hid : names.resolve? spelling = some id) : id < g.size := by
  obtain ⟨name, hname⟩ := get?_of_resolve? hid
  exact h name id hname

end Names

namespace Graph

variable {g h : Graph}

/-- Linked nodes hold the links they held, or nodes that names stand for. -/
theorem lt_size_of_linkAt?_link {n : Node} {names : Names} {size : Nat}
    (hn : ∀ site b, n.linkAt? site = some (some b) → b < size)
    (hnames : ∀ spelling b, names.resolve? spelling = some b → b < size) {site : Site} {b : NodeId}
    (hb : (n.link names).linkAt? site = some (some b)) : b < size := by
  rw [Node.linkAt?_link, Option.map_eq_some_iff] at hb
  obtain ⟨l, hl, hb⟩ := hb
  cases l with
  | some c =>
    obtain rfl := Option.some.inj hb
    exact hn site c hl
  | none =>
    obtain ⟨spelling, -, hb⟩ := Option.bind_eq_some_iff.1 hb
    exact hnames spelling b hb

theorem Closed.append (hg : g.Closed) (hh : h.Closed) : (g.append h).Closed := by
  rw [closed_iff_linkAt?] at hg hh ⊢
  intro a n site b hn hb
  rw [size_append]
  rcases Nat.lt_or_ge a g.size with ha | ha
  · rw [node?_append_left ha] at hn
    exact Nat.lt_add_right _ (hg a n site b hn hb)
  · obtain ⟨i, rfl⟩ := Nat.exists_eq_add_of_le ha
    rw [node?_append_right, Option.map_eq_some_iff] at hn
    obtain ⟨m, hm, rfl⟩ := hn
    rw [Node.linkAt?_mapLinks, Option.map_eq_some_iff] at hb
    obtain ⟨l, hl, hb⟩ := hb
    obtain ⟨c, rfl, rfl⟩ := Option.map_eq_some_iff.1 hb
    exact Nat.add_lt_add_left (hh i m site c hm hl) _

/-- **Linking nodes keeps a graph closed.** -/
theorem Closed.link (hg : g.Closed) {names : Names} (hnames : names.Within g) (ids : List NodeId) :
    (g.link names ids).1.Closed := by
  rw [closed_iff_linkAt?] at hg ⊢
  intro a m site b hm hb
  rw [size_link]
  rw [node?_link, Option.map_eq_some_iff] at hm
  obtain ⟨n, hn, rfl⟩ := hm
  split at hb
  · exact lt_size_of_linkAt?_link (fun site b => hg a n site b hn) (fun _ _ => hnames.resolve?) hb
  · exact hg a n site b hn hb

end Graph

/-! ### One file -/

/-- The names of the types of a file, in declaration order. -/
def Analysis.declared (a : Analysis) : List String := a.tree.filterMap a.graph.nameOf

/-- All numbers of an analysis are those of its nodes, and it knows no names but those of its
types. -/
structure Analysis.Sound (a : Analysis) : Prop where
  closed : a.graph.Closed
  tree_lt : ∀ id ∈ a.tree, id < a.graph.size
  names : a.names.Within a.graph
  known : ∀ name id, a.names.get? name = some id → name ∈ a.declared

/-- **The analysis of a description that holds no links is sound.** -/
theorem Description.sound_analysis {d : Description} (hd : d.IsFresh)
    (hnodup : (d.types.map (·.name)).Nodup) (schema : FilePath) : (d.analysis schema).Sound := by
  have hsize : (d.analysis schema).graph.size = d.types.length := size_analysis d schema
  have hnames : (d.analysis schema).names.Within (d.analysis schema).graph := by
    intro name id hid
    rw [get?_analysis schema hnodup, position?, List.findIdx?_eq_some_iff_findIdx_eq] at hid
    rw [hsize]
    exact hid.1
  refine ⟨?_, fun id hid => ?_, hnames, fun name id hid => ?_⟩
  · rw [Graph.closed_iff_linkAt?]
    intro a m site b hm hb
    rw [node?_analysis, Option.map_eq_some_iff] at hm
    obtain ⟨t, ht, rfl⟩ := hm
    refine Graph.lt_size_of_linkAt?_link (fun site b hlink => ?_) (fun _ _ => hnames.resolve?) hb
    -- nothing in the type itself is linked
    have hopen := linkAt?_unlinked t.toNode site
    rw [unlinked_toNode (hd t (List.mem_of_getElem? ht)), hlink] at hopen
    cases hopen
  · rw [tree_analysis, List.mem_range] at hid
    rwa [hsize]
  · have hlt : id < d.types.length := hsize ▸ hnames name id hid
    rw [get?_analysis schema hnodup, position?, List.findIdx?_eq_some_iff_getElem] at hid
    obtain ⟨_, hname, -⟩ := hid
    rw [Analysis.declared, tree_analysis, List.mem_filterMap]
    refine ⟨id, List.mem_range.2 hlt, ?_⟩
    rw [Graph.nameOf, node?_analysis, List.getElem?_eq_getElem hlt]
    exact congrArg some (of_decide_eq_true hname)

/-! ### Stores -/

/-- What is in the trees after types are put in. -/
theorem mem_insertTree {source : FilePath} {ids : List NodeId} {ts : List Tree} {u : Tree}
    (h : u ∈ insertTree source ids ts) :
    u ∈ ts ∨ u = ⟨source, ids⟩ ∨
      ∃ t ∈ ts, t.source.same source = true ∧ u = { t with ids := t.ids ++ ids } := by
  induction ts with
  | nil => exact .inr (.inl (List.mem_singleton.1 h))
  | cons t ts ih =>
    unfold insertTree at h
    split at h
    · rcases List.mem_cons.1 h with rfl | h
      · exact .inr (.inl rfl)
      · exact .inl h
    · rename_i heq
      rcases List.mem_cons.1 h with rfl | h
      · have hsame := (FilePath.same_comm _ _).trans (FilePath.compare_eq_eq_iff.1 heq)
        exact .inr (.inr ⟨t, List.mem_cons_self, hsame, rfl⟩)
      · exact .inl (List.mem_cons_of_mem _ h)
    · rcases List.mem_cons.1 h with rfl | h
      · exact .inl List.mem_cons_self
      · rcases ih h with hu | hu | ⟨v, hv, hu⟩
        · exact .inl (List.mem_cons_of_mem _ hu)
        · exact .inr (.inl hu)
        · exact .inr (.inr ⟨v, List.mem_cons_of_mem _ hv, hu⟩)

namespace Store

/-- What a name stands for once a file is merged. -/
theorem get?_merge (s : Store) (a : Analysis) (name : String) :
    (s.merge a).names.get? name =
      ((a.names.get? name).map (s.graph.size + ·) <|> s.names.get? name) := by
  rw [← Names.get?_mapIds, ← Names.get?_merge]
  rfl

/-- All numbers of a store are those of its nodes, and its trees are in order. -/
structure Sound (s : Store) : Prop where
  closed : s.graph.Closed
  tree_lt : ∀ t ∈ s.trees, ∀ id ∈ t.ids, id < s.graph.size
  names : s.names.Within s.graph
  ordered : Ordered s.trees

variable {s : Store} {a : Analysis}

/-- **Merging a sound analysis keeps a store sound.** -/
theorem Sound.merge (hs : s.Sound) (ha : a.Sound) : (s.merge a).Sound where
  closed := hs.closed.append ha.closed
  tree_lt t ht id hid := by
    have hnew : ∀ id ∈ a.tree.map (s.graph.size + ·), id < (s.graph.append a.graph).size := by
      intro id hid
      obtain ⟨i, hi, rfl⟩ := List.mem_map.1 hid
      rw [Graph.size_append]
      exact Nat.add_lt_add_left (ha.tree_lt i hi) _
    have hold : ∀ t ∈ s.trees, ∀ id ∈ t.ids, id < (s.graph.append a.graph).size := by
      intro t ht id hid
      rw [Graph.size_append]
      exact Nat.lt_add_right _ (hs.tree_lt t ht id hid)
    rcases mem_insertTree ht with ht | rfl | ⟨u, hu, -, rfl⟩
    · exact hold t ht id hid
    · exact hnew id hid
    · rcases List.mem_append.1 hid with hid | hid
      · exact hold u hu id hid
      · exact hnew id hid
  names name id hid := by
    show id < (s.graph.append a.graph).size
    rw [Graph.size_append]
    rw [get?_merge, Option.orElse_eq_orElse, Option.orElse_eq_or, Option.or_eq_some_iff] at hid
    rcases hid with hid | ⟨-, hid⟩
    · obtain ⟨i, hi, rfl⟩ := Option.map_eq_some_iff.1 hid
      exact Nat.add_lt_add_left (ha.names name i hi) _
    · exact Nat.lt_add_right _ (hs.names name id hid)
  ordered := hs.ordered.insertTree

theorem sound_empty : empty.Sound where
  closed a b hb := by cases hb
  tree_lt t ht := by cases ht
  names name id hid := by cases hid
  ordered := List.Pairwise.nil

/-- **Linking keeps a store sound.** -/
theorem Sound.link (hs : s.Sound) : s.link.1.Sound := by
  rw [link_eq]
  exact ⟨hs.closed.link hs.names _, fun t ht id hid => by simpa using hs.tree_lt t ht id hid,
    fun name id hid => by simpa using hs.names name id hid, hs.ordered⟩

end Store

theorem Store.Sound.foldl_merge {s : Store} (hs : s.Sound) {as : List Analysis}
    (has : ∀ a ∈ as, a.Sound) : (as.foldl Store.merge s).Sound := by
  induction as generalizing s with
  | nil => exact hs
  | cons a as ih =>
    obtain ⟨ha, has⟩ := List.forall_mem_cons.1 has
    exact ih (hs.merge ha) has

theorem sound_mergeAll {as : List Analysis} (has : ∀ a ∈ as, a.Sound) : (mergeAll as).Sound :=
  Store.sound_empty.foldl_merge has

end Schema
end Marshal
