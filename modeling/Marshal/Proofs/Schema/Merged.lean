import Mathlib.Algebra.Ring.Nat
import Mathlib.Data.List.Induction
import Marshal.Proofs.Path.Order
import Marshal.Proofs.Schema.Linking
import Marshal.Schema.Store

/-!
# Merged analyses

In the store of a run the analysed files lie side by side: the nodes of a file keep their order and
start where those of the files before it end.  A name stands for what the last file that knows it
says.  All types of a file are in the tree of its source file, so all of them are linked once more.

## Main definitions

* `mergeAll` — the store of some analyses.
* `firstId` — the number that the first node of an analysis gets.
* `Ordered` — trees in the order of their paths.

## Main results

* `node?_mergeAll`, `mem_trees_mergeAll`, `get?_mergeAll_concat` — what is in the store.
* `ordered_mergeAll` — the source files are in the order of their paths, each once.
* `node?_link_store` — which nodes linking a store changes.
-/

namespace Marshal
namespace Schema

/-- The store of some analyses, merged in this order. -/
def mergeAll (as : List Analysis) : Store := as.foldl Store.merge .empty

/-- The number that the first node of an analysis gets. -/
def firstId (as : List Analysis) (k : Nat) : NodeId := ((as.take k).map (·.graph.size)).sum

theorem mergeAll_concat (as : List Analysis) (a : Analysis) :
    mergeAll (as ++ [a]) = (mergeAll as).merge a := by
  simp [mergeAll]

theorem firstId_append_of_le {as : List Analysis} {k : Nat} (h : k ≤ as.length)
    (rest : List Analysis) : firstId (as ++ rest) k = firstId as k := by
  rw [firstId, List.take_append_of_le_length h, firstId]

/-! ### Nodes -/

theorem size_mergeAll (as : List Analysis) :
    (mergeAll as).graph.size = firstId as as.length := by
  induction as using List.reverseRecOn with
  | nil => rfl
  | append_singleton as a ih =>
    have hsize : ((mergeAll as).merge a).graph.size = (mergeAll as).graph.size + a.graph.size := by
      simp [Store.merge, Graph.append, Graph.size]
    have hfirst : firstId (as ++ [a]) (as ++ [a]).length = firstId as as.length + a.graph.size := by
      rw [firstId, firstId, List.take_length, List.take_length, List.map_append, List.sum_append]
      rfl
    rw [mergeAll_concat, hsize, ih, hfirst]

theorem node?_append_left {g h : Graph} {a : NodeId} (ha : a < g.size) :
    (g.append h).node? a = g.node? a :=
  List.getElem?_append_left ha

theorem node?_append_right (g h : Graph) (i : Nat) :
    (g.append h).node? (g.size + i) = (h.node? i).map (·.mapLinks (g.size + ·)) := by
  unfold Graph.append Graph.node? Graph.size
  rw [List.getElem?_append_right (Nat.le_add_right _ _), Nat.add_sub_cancel_left,
    List.getElem?_map]

/-- **The nodes of a file keep their order and their links** in the store. -/
theorem node?_mergeAll {as : List Analysis} {k : Nat} {a : Analysis} (hk : as[k]? = some a)
    {i : Nat} (hi : i < a.graph.size) :
    (mergeAll as).graph.node? (firstId as k + i) =
      (a.graph.node? i).map (·.mapLinks (firstId as k + ·)) := by
  induction as using List.reverseRecOn with
  | nil => exact absurd hk (by simp)
  | append_singleton as b ih =>
    have hgraph : (mergeAll (as ++ [b])).graph = (mergeAll as).graph.append b.graph := by
      rw [mergeAll_concat]
      rfl
    rw [hgraph]
    rcases Nat.lt_or_ge k as.length with hlt | hge
    · rw [List.getElem?_append_left hlt] at hk
      rw [firstId_append_of_le (Nat.le_of_lt hlt)]
      -- the number of the node is one of those that were there before
      have hnode := ih hk
      obtain ⟨n, hn⟩ : ∃ n, a.graph.node? i = some n := Graph.node?_eq_some_of_lt hi
      rw [hn, Option.map_some] at hnode ⊢
      rw [node?_append_left (Graph.lt_size_of_node? hnode), hnode]
    · have hlast : k = as.length := by
        have := (List.getElem?_eq_some_iff.1 hk).1
        simp at this
        omega
      subst hlast
      obtain rfl : b = a := by simpa using hk
      rw [firstId_append_of_le (Nat.le_refl _), ← size_mergeAll, node?_append_right]

/-! ### Trees -/

/-- The trees of a store are in the order of their paths, and no path has two. -/
def Ordered (ts : List Tree) : Prop := ts.Pairwise fun t u => t.source.compare u.source = .lt

section

variable {source : FilePath} {ids : List NodeId} {ts : List Tree}

/-- What is put in has a tree of its path. -/
theorem exists_mem_insertTree (source : FilePath) (ids : List NodeId) (ts : List Tree) :
    ∃ t ∈ insertTree source ids ts, t.source.same source = true ∧ ∀ id ∈ ids, id ∈ t.ids := by
  induction ts with
  | nil => exact ⟨⟨source, ids⟩, by simp [insertTree], by simp [FilePath.same], fun _ h => h⟩
  | cons t ts ih =>
    unfold insertTree
    split
    · exact ⟨⟨source, ids⟩, by simp, by simp [FilePath.same], fun _ h => h⟩
    · rename_i h
      have hsame := (FilePath.same_comm _ _).trans (FilePath.compare_eq_eq_iff.1 h)
      exact ⟨_, List.mem_cons_self, hsame, fun _ h => List.mem_append_right _ h⟩
    · obtain ⟨u, hu, hsame, hids⟩ := ih
      exact ⟨u, List.mem_cons_of_mem _ hu, hsame, hids⟩

/-- What was in a tree stays in the tree of its path. -/
theorem exists_mem_insertTree_of_mem {t : Tree} (ht : t ∈ ts) :
    ∃ u ∈ insertTree source ids ts, u.source = t.source ∧ ∀ id ∈ t.ids, id ∈ u.ids := by
  induction ts with
  | nil => exact absurd ht (by simp)
  | cons v ts ih =>
    unfold insertTree
    split
    · exact ⟨t, List.mem_cons_of_mem _ ht, rfl, fun _ h => h⟩
    · rcases List.mem_cons.1 ht with rfl | ht
      · exact ⟨_, List.mem_cons_self, rfl, fun _ h => List.mem_append_left _ h⟩
      · exact ⟨t, List.mem_cons_of_mem _ ht, rfl, fun _ h => h⟩
    · rcases List.mem_cons.1 ht with rfl | ht
      · exact ⟨t, List.mem_cons_self, rfl, fun _ h => h⟩
      · obtain ⟨u, hu, hsource, hids⟩ := ih ht
        exact ⟨u, List.mem_cons_of_mem _ hu, hsource, hids⟩

/-- The paths of the trees are those there were and the one that is put in. -/
theorem source_mem_insertTree {u : Tree} (hu : u ∈ insertTree source ids ts) :
    u.source = source ∨ ∃ t ∈ ts, u.source = t.source := by
  induction ts with
  | nil =>
    obtain rfl : u = ⟨source, ids⟩ := by simpa [insertTree] using hu
    exact .inl rfl
  | cons t ts ih =>
    unfold insertTree at hu
    split at hu
    · rcases List.mem_cons.1 hu with rfl | hu
      · exact .inl rfl
      · exact .inr ⟨u, hu, rfl⟩
    · rcases List.mem_cons.1 hu with rfl | hu
      · exact .inr ⟨t, List.mem_cons_self, rfl⟩
      · exact .inr ⟨u, List.mem_cons_of_mem _ hu, rfl⟩
    · rcases List.mem_cons.1 hu with rfl | hu
      · exact .inr ⟨u, List.mem_cons_self, rfl⟩
      · rcases ih hu with h | ⟨v, hv, h⟩
        · exact .inl h
        · exact .inr ⟨v, List.mem_cons_of_mem _ hv, h⟩

/-- **Putting types in keeps the order of paths.** -/
theorem Ordered.insertTree (h : Ordered ts) : Ordered (insertTree source ids ts) := by
  induction ts with
  | nil => exact List.pairwise_singleton _ _
  | cons t ts ih =>
    obtain ⟨hfirst, hrest⟩ := List.pairwise_cons.1 h
    unfold Schema.insertTree
    split
    · rename_i hlt
      refine List.pairwise_cons.2 ⟨fun u hu => ?_, h⟩
      rcases List.mem_cons.1 hu with rfl | hu
      · exact hlt
      · exact Std.TransCmp.lt_trans hlt (hfirst u hu)
    · exact List.pairwise_cons.2 ⟨hfirst, hrest⟩
    · rename_i hgt
      refine List.pairwise_cons.2 ⟨fun u hu => ?_, ih hrest⟩
      rcases source_mem_insertTree hu with hu | ⟨v, hv, hu⟩
      · rw [hu]
        exact Std.OrientedCmp.gt_iff_lt.1 hgt
      · rw [hu]
        exact hfirst v hv

end

theorem ordered_mergeAll (as : List Analysis) : Ordered (mergeAll as).trees := by
  induction as using List.reverseRecOn with
  | nil => exact List.Pairwise.nil
  | append_singleton as a ih =>
    rw [mergeAll_concat]
    exact ih.insertTree

/-- **The types of a file are in the tree of its source file.** -/
theorem mem_trees_mergeAll {as : List Analysis} {k : Nat} {a : Analysis} (hk : as[k]? = some a) :
    ∃ t ∈ (mergeAll as).trees, t.source.same a.source = true ∧
      ∀ i ∈ a.tree, firstId as k + i ∈ t.ids := by
  induction as using List.reverseRecOn with
  | nil => exact absurd hk (by simp)
  | append_singleton as b ih =>
    have htrees : (mergeAll (as ++ [b])).trees =
        insertTree b.source (b.tree.map ((mergeAll as).graph.size + ·)) (mergeAll as).trees := by
      rw [mergeAll_concat]
      rfl
    rw [htrees]
    rcases Nat.lt_or_ge k as.length with hlt | hge
    · rw [List.getElem?_append_left hlt] at hk
      obtain ⟨t, ht, hsame, hids⟩ := ih hk
      obtain ⟨u, hu, hsource, hkept⟩ : ∃ u ∈ insertTree b.source
          (b.tree.map ((mergeAll as).graph.size + ·)) (mergeAll as).trees,
          u.source = t.source ∧ ∀ i ∈ t.ids, i ∈ u.ids := exists_mem_insertTree_of_mem ht
      rw [firstId_append_of_le (Nat.le_of_lt hlt)]
      exact ⟨u, hu, hsource ▸ hsame, fun i hi => hkept _ (hids i hi)⟩
    · have hlast : k = as.length := by
        have := (List.getElem?_eq_some_iff.1 hk).1
        simp at this
        omega
      subst hlast
      obtain rfl : b = a := by simpa using hk
      obtain ⟨t, ht, hsame, hids⟩ := exists_mem_insertTree b.source
        (b.tree.map ((mergeAll as).graph.size + ·)) (mergeAll as).trees
      rw [firstId_append_of_le (Nat.le_refl _), ← size_mergeAll]
      exact ⟨t, ht, hsame, fun i hi => hids _ (List.mem_map_of_mem hi)⟩

/-! ### Names -/

/-- **A name stands for what the last file says that knows it.** -/
theorem get?_mergeAll_concat (as : List Analysis) (a : Analysis) (name : String) :
    (mergeAll (as ++ [a])).names.get? name =
      ((a.names.get? name).map (firstId as as.length + ·) <|> (mergeAll as).names.get? name) := by
  have hnames : (mergeAll (as ++ [a])).names =
      (mergeAll as).names.merge (a.names.mapIds ((mergeAll as).graph.size + ·)) := by
    rw [mergeAll_concat]
    rfl
  rw [hnames, Names.get?_merge, Names.get?_mapIds, size_mergeAll]

/-! ### Linking -/

/-- Linking tree after tree, with what has been reported so far. -/
theorem foldl_link_fst (names : Names) (ts : List Tree) (g : Graph) (r : LinkReport) :
    (ts.foldl (fun (g, report) t =>
      let (g, r) := Graph.link names g t.ids
      (g, LinkReport.append report r)) (g, r)).1 =
      ts.foldl (fun g t => (Graph.link names g t.ids).1) g := by
  induction ts generalizing g r with
  | nil => rfl
  | cons t ts ih => exact ih _ _

theorem trees_link (s : Store) : s.link.1.trees = s.trees := rfl

/-- **Linking a store links the nodes that are in its trees**, and no others. -/
theorem node?_link_store (s : Store) (a : NodeId) :
    s.link.1.graph.node? a =
      (s.graph.node? a).map fun n => if ∃ t ∈ s.trees, a ∈ t.ids then n.link s.names else n := by
  have hgraph : s.link.1.graph = s.trees.foldl (fun g t => (Graph.link s.names g t.ids).1) s.graph :=
    foldl_link_fst _ _ _ _
  rw [hgraph]
  generalize s.graph = g
  induction s.trees generalizing g with
  | nil => simp
  | cons t ts ih =>
    rw [List.foldl_cons, ih, Graph.node?_link, Option.map_map]
    congr 1
    funext n
    by_cases h : a ∈ t.ids <;> by_cases hrest : ∃ t ∈ ts, a ∈ t.ids <;>
      simp [h, hrest, Node.link_link]

end Schema
end Marshal
