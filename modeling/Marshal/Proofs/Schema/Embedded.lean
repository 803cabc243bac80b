import Mathlib.Data.List.Sort
import Marshal.Proofs.Schema.Sound

/-!
# Stores under other numbers

What a store holds depends on the order in which files were merged, and on files that have nothing
to do with each other.  A store **embeds** in another if its graph does, and the other has the same
trees and names, up to the numbers, but for the trees of some source files that are not kept, and
for names that are not known.

Merging a file of a source that is kept keeps an embedding, and so does linking, if all that the
spellings in the smaller store can stand for is known.

## Main definitions

* `Tree.move` — a tree under other numbers.
* `treesOf` — the trees of some of the source files.
* `Store.Embeds` — what a store is in another one.

## Main results

* `insertTree_comm` — types of two source files can be put in in either order.
* `Store.Embeds.merge`, `Store.Embeds.link` — merging and linking.
-/

namespace Marshal
namespace Schema

/-! ### Trees -/

/-- A tree under other numbers. -/
def Tree.move (move : NodeId → NodeId) (t : Tree) : Tree := ⟨t.source, t.ids.map move⟩

section

variable {source p q : FilePath} {ids : List NodeId} {t : Tree} {ts us : List Tree}

/-- Trees in order are the same if every path has the same tree. -/
theorem Ordered.ext (hts : Ordered ts) (hus : Ordered us) (h : ∀ p, treeOf? p ts = treeOf? p us) :
    ts = us := by
  have hself : ∀ t : Tree, t.source.compare t.source ≠ .lt := fun t => by
    rw [FilePath.compare_eq_eq_iff.2 (by simp [FilePath.same])]
    exact Ordering.noConfusion
  have : Std.Irrefl fun t u : Tree => t.source.compare u.source = .lt := ⟨hself⟩
  have : Std.Antisymm fun t u : Tree => t.source.compare u.source = .lt :=
    ⟨fun t u htu hut => absurd (Std.TransCmp.lt_trans htu hut) (hself t)⟩
  refine List.Pairwise.eq_of_mem_iff hts hus fun t => ⟨fun ht => ?_, fun ht => ?_⟩
  · exact mem_of_treeOf? ((h _).symm.trans (treeOf?_of_mem hts ht))
  · exact mem_of_treeOf? ((h _).trans (treeOf?_of_mem hus ht))

/-- **Types of two source files can be put in in either order.** -/
theorem insertTree_comm (h : Ordered ts) (hne : p.same q = false) (as bs : List NodeId) :
    insertTree p as (insertTree q bs ts) = insertTree q bs (insertTree p as ts) := by
  refine Ordered.ext h.insertTree.insertTree h.insertTree.insertTree fun k => ?_
  rw [treeOf?_insertTree h.insertTree, treeOf?_insertTree h, treeOf?_insertTree h.insertTree,
    treeOf?_insertTree h]
  by_cases hp : p.same k
  · have hq : ¬ q.same k := fun hq => by
      rw [FilePath.same_congr_left hp, FilePath.same_comm, hq] at hne
      cases hne
    rw [if_pos hp, if_pos hp, if_neg hq, if_neg hq]
  · rw [if_neg hp, if_neg hp]

theorem map_insertTree (move : NodeId → NodeId) (source : FilePath) (ids : List NodeId)
    (ts : List Tree) :
    (insertTree source ids ts).map (Tree.move move) =
      insertTree source (ids.map move) (ts.map (Tree.move move)) := by
  induction ts with
  | nil => rfl
  | cons t ts ih =>
    have hsource : (t.move move).source = t.source := rfl
    rw [List.map_cons, insertTree, insertTree, hsource]
    cases source.compare t.source with
    | lt => rfl
    | eq => simp [Tree.move]
    | gt => exact congrArg (t.move move :: ·) ih

/-- What comes before all trees is put in first. -/
theorem insertTree_of_forall_lt (h : ∀ t ∈ ts, source.compare t.source = .lt) (ids : List NodeId) :
    insertTree source ids ts = ⟨source, ids⟩ :: ts := by
  cases ts with
  | nil => rfl
  | cons t ts => rw [insertTree, h t List.mem_cons_self]

/-- The trees of some of the source files. -/
def treesOf (kept : FilePath → Bool) (ts : List Tree) : List Tree := ts.filter (kept ·.source)

variable {kept : FilePath → Bool}

theorem treesOf_cons_of_pos (h : kept t.source = true) :
    treesOf kept (t :: ts) = t :: treesOf kept ts :=
  List.filter_cons_of_pos (p := fun t : Tree => kept t.source) h

theorem treesOf_cons_of_neg (h : ¬ kept t.source = true) :
    treesOf kept (t :: ts) = treesOf kept ts :=
  List.filter_cons_of_neg (p := fun t : Tree => kept t.source) h

variable (hkept : ∀ p q, p.same q = true → kept p = kept q)

include hkept

/-- **Trees of other source files** make no difference to what is put in. -/
theorem treesOf_insertTree (h : Ordered ts) (hsource : kept source = true) (ids : List NodeId) :
    treesOf kept (insertTree source ids ts) = insertTree source ids (treesOf kept ts) := by
  induction ts with
  | nil => exact treesOf_cons_of_pos hsource
  | cons t ts ih =>
    obtain ⟨hfirst, hrest⟩ := List.pairwise_cons.1 h
    rw [insertTree]
    split
    · rename_i hlt
      have hall : ∀ u ∈ treesOf kept (t :: ts), source.compare u.source = .lt := by
        intro u hu
        rcases List.mem_cons.1 (List.mem_of_mem_filter hu) with rfl | hu
        · exact hlt
        · exact Std.TransCmp.lt_trans hlt (hfirst u hu)
      rw [insertTree_of_forall_lt hall, treesOf_cons_of_pos hsource]
    · rename_i heq
      have ht : kept t.source = true :=
        (hkept _ _ (FilePath.compare_eq_eq_iff.1 heq)).symm.trans hsource
      rw [treesOf_cons_of_pos ht, insertTree, heq]
      exact treesOf_cons_of_pos ht
    · rename_i hgt
      by_cases ht : kept t.source = true
      · rw [treesOf_cons_of_pos ht, treesOf_cons_of_pos ht, ih hrest, insertTree, hgt]
      · rw [treesOf_cons_of_neg ht, treesOf_cons_of_neg ht, ih hrest]

/-- What is put in for another source file makes no difference. -/
theorem treesOf_insertTree_of_not (hsource : kept source = false) (ids : List NodeId) :
    treesOf kept (insertTree source ids ts) = treesOf kept ts := by
  have hnot : ¬ kept source = true := by simp [hsource]
  induction ts with
  | nil => exact treesOf_cons_of_neg hnot
  | cons t ts ih =>
    rw [insertTree]
    split
    · exact treesOf_cons_of_neg hnot
    · rename_i heq
      have ht : ¬ kept t.source = true := by
        rwa [← hkept _ _ (FilePath.compare_eq_eq_iff.1 heq)]
      rw [treesOf_cons_of_neg ht]
      exact treesOf_cons_of_neg ht
    · by_cases ht : kept t.source = true
      · rw [treesOf_cons_of_pos ht, treesOf_cons_of_pos ht, ih]
      · rw [treesOf_cons_of_neg ht, treesOf_cons_of_neg ht, ih]

end

/-! ### Stores -/

/-- Names that agree on what a spelling can stand for agree on the spelling. -/
theorem Names.resolve?_map {names names' : Names} {move : NodeId → NodeId} {spelling : String}
    (h : ∀ name, name = spelling ∨ withoutGlobal? spelling = some name →
      names'.get? name = (names.get? name).map move) :
    names'.resolve? spelling = (names.resolve? spelling).map move := by
  have hglobal : (withoutGlobal? spelling).bind names'.get? =
      ((withoutGlobal? spelling).bind names.get?).map move := by
    cases hname : withoutGlobal? spelling with
    | none => rfl
    | some name => exact h name (.inr hname)
  unfold resolve?
  rw [hglobal, h spelling (.inl rfl)]
  split
  · rfl
  · cases names.get? spelling <;> rfl

namespace Store

/-- What a store is in another one: its nodes are there under other numbers, the trees of the source
files that are kept are its trees, and the names that are known stand for its nodes.  The other
trees hold none of them. -/
structure Embeds (move : NodeId → NodeId) (kept : FilePath → Bool) (known : String → Prop)
    (s t : Store) : Prop where
  graph : s.graph.Embeds move t.graph
  trees : treesOf kept t.trees = s.trees.map (Tree.move move)
  apart : ∀ u ∈ t.trees, kept u.source = false → ∀ id ∈ u.ids, ∀ a, move a ≠ id
  names : ∀ name, known name → t.names.get? name = (s.names.get? name).map move

/-- Whether all that the spellings in a store can stand for are names of some kind. -/
def Spells (s : Store) (known : String → Prop) : Prop :=
  ∀ a n site spelling, s.graph.node? a = some n → n.spelling? site = some spelling →
    ∀ name, name = spelling ∨ Names.withoutGlobal? spelling = some name → known name

section

variable {move : NodeId → NodeId} {kept : FilePath → Bool} {known : String → Prop} {s t : Store}

/-- **Merging a file of a source that is kept.** -/
theorem Embeds.merge (he : Embeds move kept known s t)
    (hkept : ∀ p q, p.same q = true → kept p = kept q) (ht : Ordered t.trees) {a : Analysis}
    (ha : kept a.source = true) : Embeds move kept known (s.merge a) (t.merge a) where
  graph := he.graph.append a.graph
  trees := by
    have hids : (a.tree.map (s.graph.size + ·)).map move = a.tree.map (t.graph.size + ·) := by
      rw [List.map_map]
      exact List.map_congr_left fun i _ => he.graph.move_size i
    show treesOf kept (insertTree a.source (a.tree.map (t.graph.size + ·)) t.trees) =
      (insertTree a.source (a.tree.map (s.graph.size + ·)) s.trees).map (Tree.move move)
    rw [treesOf_insertTree hkept ht ha, map_insertTree, hids, he.trees]
  apart u hu hnot := by
    rcases mem_insertTree hu with hu | rfl | ⟨v, -, hsame, rfl⟩
    · exact he.apart u hu hnot
    · exact absurd (hnot.symm.trans ha) Bool.false_ne_true
    · have hv : kept v.source = true := (hkept _ _ hsame).trans ha
      exact absurd (hnot.symm.trans hv) Bool.false_ne_true
  names name hname := by
    rw [get?_merge, get?_merge, he.names name hname]
    cases a.names.get? name with
    | none => rfl
    | some i => exact congrArg some (he.graph.move_size i).symm

/-- **Merging files of sources that are kept.** -/
theorem Embeds.foldl_merge (he : Embeds move kept known s t)
    (hkept : ∀ p q, p.same q = true → kept p = kept q) (ht : Ordered t.trees) {as : List Analysis}
    (has : ∀ a ∈ as, kept a.source = true) :
    Embeds move kept known (as.foldl Store.merge s) (as.foldl Store.merge t) := by
  induction as generalizing s t with
  | nil => exact he
  | cons a as ih =>
    obtain ⟨ha, has⟩ := List.forall_mem_cons.1 has
    exact ih (he.merge hkept ht ha) ht.insertTree has

theorem Embeds.agrees (he : Embeds move kept known s t) (hs : s.Spells known) :
    s.graph.Agrees move s.names t.names := fun a n hn site spelling hspelling =>
  Names.resolve?_map fun name hname => he.names name (hs a n site spelling hn hspelling name hname)

/-- A list all but at most one of whose elements are kept is split by the one that is not. -/
theorem exists_split {α : Type} {p : α → Bool} {l : List α}
    (h : (l.filter (!p ·)).length ≤ 1) :
    ∃ l₁ us l₂, l = l₁ ++ us ++ l₂ ∧ l.filter p = l₁ ++ l₂ ∧ ∀ u ∈ us, p u = false := by
  induction l with
  | nil => exact ⟨[], [], [], rfl, rfl, by simp⟩
  | cons a l ih =>
    cases ha : p a with
    | true =>
      rw [List.filter_cons_of_neg (by simp [ha])] at h
      obtain ⟨l₁, us, l₂, rfl, hfilter, hus⟩ := ih h
      exact ⟨a :: l₁, us, l₂, rfl, by rw [List.filter_cons_of_pos ha, hfilter]; rfl, hus⟩
    | false =>
      -- no other element is left out
      rw [List.filter_cons_of_pos (by simp [ha]), List.length_cons] at h
      have hall : ∀ b ∈ l, p b = true := by
        have hnone : l.filter (!p ·) = [] := List.length_eq_zero_iff.1 (by omega)
        simpa using List.filter_eq_nil_iff.1 hnone
      refine ⟨[], [a], l, rfl, ?_, by simpa using ha⟩
      rw [List.filter_cons_of_neg (by simp [ha]), List.filter_eq_self.2 hall, List.nil_append]

theorem flatMap_ids_move (move : NodeId → NodeId) (ts : List Tree) :
    (ts.map (Tree.move move)).flatMap (·.ids) = (ts.flatMap (·.ids)).map move := by
  rw [List.flatMap_map, List.map_flatMap]
  rfl

/-- **Linking.**  If at most one tree is of a source file that is not kept, then both stores report
the same, but for what the larger one reports of that tree. -/
theorem Embeds.link (he : Embeds move kept known s t) (hs : s.Spells known)
    (hone : (treesOf (!kept ·) t.trees).length ≤ 1) :
    Embeds move kept known s.link.1 t.link.1 ∧
    ∃ r₁ r r₂ : LinkReport, s.link.2 = r₁.append r₂ ∧ t.link.2 = r₁.append (r.append r₂) ∧
      (treesOf (!kept ·) t.trees = [] → r = .empty) := by
  obtain ⟨us₁, us, us₂, htrees, hfilter, hus⟩ := exists_split hone
  obtain ⟨ts₁, ts₂, hsplit, rfl, rfl⟩ := List.map_eq_append_iff.1 (he.trees.symm.trans hfilter)
  have hapart : ∀ a ∈ us.flatMap (·.ids), ∀ b, move b ≠ a := by
    intro a ha b
    obtain ⟨u, hu, ha⟩ := List.mem_flatMap.1 ha
    exact he.apart u (by simp [htrees, hu]) (hus u hu) a ha b
  have hs' : s.trees.flatMap (·.ids) = ts₁.flatMap (·.ids) ++ ts₂.flatMap (·.ids) := by
    rw [hsplit, List.flatMap_append]
  have ht' : t.trees.flatMap (·.ids) = (ts₁.flatMap (·.ids)).map move ++
      (us.flatMap (·.ids) ++ (ts₂.flatMap (·.ids)).map move) := by
    rw [htrees, List.append_assoc, List.flatMap_append, List.flatMap_append, flatMap_ids_move,
      flatMap_ids_move]
  obtain ⟨hgraph, r₁, r, r₂, hr, hr', hnone⟩ := he.graph.link_between (he.agrees hs)
    (ts₁.flatMap (·.ids)) (ts₂.flatMap (·.ids)) hapart
  rw [link_eq, link_eq, hs', ht']
  refine ⟨⟨hgraph, he.trees, he.apart, he.names⟩, r₁, r, r₂, hr, hr', fun hempty => hnone ?_⟩
  have hnil : us = [] := by
    refine List.eq_nil_iff_forall_not_mem.2 fun u hu => ?_
    exact List.filter_eq_nil_iff.1 hempty u (by simp [htrees, hu]) (by simp [hus u hu])
  rw [hnil]
  rfl

end

end Store
end Schema
end Marshal
