import Marshal.Proofs.Schema.Embedded

/-!
# Files that have nothing to do with each other

Files are **independent** if they share neither source file nor the name of a type.  Independent
files can be merged in any order: what comes out is the same store under other numbers.

A file is **unrelated** to another if it describes another source file and none of its types has a
name that the other spells.  A store embeds in the one that has a file besides which is unrelated
to all that are in the store.

## Main definitions

* `Store.Renumbers` — the same store, under other numbers.
* `Analysis.spelled` — the spellings of the references in a file.
* `Analysis.Independent`, `Analysis.Unrelated` — files that have nothing to do with each other.

## Main results

* `Store.exists_renumbers` — independent files can be merged in any order.
* `exists_embeds_mergeAll` — a store embeds in the one that has an unrelated file besides.
-/

namespace Marshal
namespace Schema

namespace Store

/-! ### A file more -/

variable {s t u : Store} {a b : Analysis}

theorem map_move_eq_self (hs : s.Sound) {move : NodeId → NodeId}
    (h : ∀ id, id < s.graph.size → move id = id) : s.trees.map (Tree.move move) = s.trees := by
  conv_rhs => rw [← List.map_id s.trees]
  refine List.map_congr_left fun t ht => ?_
  have hids : t.ids.map move = t.ids := by
    conv_rhs => rw [← List.map_id t.ids]
    exact List.map_congr_left fun id hid => h id (hs.tree_lt t ht id hid)
  rw [Tree.move, hids]
  rfl

theorem map_get?_eq_self (hs : s.Sound) {move : NodeId → NodeId}
    (h : ∀ id, id < s.graph.size → move id = id) (name : String) :
    (s.names.get? name).map move = s.names.get? name := by
  cases hid : s.names.get? name with
  | none => rfl
  | some id => exact congrArg some (h id (hs.names name id hid))

/-- **A store embeds in the one that has a file besides**, whose source file is not kept. -/
theorem embeds_merge (hs : s.Sound) (ha : a.Sound) (kept : FilePath → Bool)
    (hkept : ∀ p q, p.same q = true → kept p = kept q)
    (htrees : ∀ t ∈ s.trees, kept t.source = true)
    (hsource : kept a.source = false) :
    Embeds (Graph.gap s.graph.size a.graph.size) kept (· ∉ a.declared) s (s.merge a) where
  graph := Graph.embeds_append hs.closed a.graph
  trees := by
    rw [map_move_eq_self hs fun id hid => Graph.gap_before hid]
    exact (treesOf_insertTree_of_not hkept hsource _).trans (List.filter_eq_self.2 htrees)
  apart u hu hnot id hid b := by
    rcases mem_insertTree hu with hu | rfl | ⟨v, hv, -, rfl⟩
    · exact absurd (hnot.symm.trans (htrees u hu)) Bool.false_ne_true
    · obtain ⟨i, hi, rfl⟩ := List.mem_map.1 hid
      exact Graph.gap_ne b (ha.tree_lt i hi)
    · exact absurd (hnot.symm.trans (htrees v hv)) Bool.false_ne_true
  names name hname := by
    have hnone : a.names.get? name = none := by
      rw [Option.eq_none_iff_forall_not_mem]
      exact fun id hid => hname (ha.known name id hid)
    rw [get?_merge, hnone, map_get?_eq_self hs fun id hid => Graph.gap_before hid]
    rfl

/-! ### Files in another order -/

/-- The same store under other numbers. -/
abbrev Renumbers (move : NodeId → NodeId) (s t : Store) : Prop :=
  Embeds move (fun _ => true) (fun _ => True) s t

theorem treesOf_true (ts : List Tree) : treesOf (fun _ => true) ts = ts :=
  List.filter_eq_self.2 fun _ _ => rfl

theorem Renumbers.trees_eq {move : NodeId → NodeId} (h : Renumbers move s t) :
    t.trees = s.trees.map (Tree.move move) :=
  (treesOf_true t.trees).symm.trans h.trees

theorem Renumbers.refl (s : Store) : Renumbers id s s where
  graph := .refl s.graph
  trees := by
    have hid : Tree.move id = id := funext fun t => by simp [Tree.move]
    rw [treesOf_true, hid, List.map_id]
  apart _ _ h := nomatch h
  names name _ := by rw [Option.map_id]; rfl

theorem Renumbers.trans {move move' : NodeId → NodeId} (hst : Renumbers move s t)
    (htu : Renumbers move' t u) : Renumbers (move' ∘ move) s u where
  graph := hst.graph.trans htu.graph
  trees := by
    rw [treesOf_true, htu.trees_eq, hst.trees_eq, List.map_map]
    exact List.map_congr_left fun t _ => by simp [Tree.move]
  apart _ _ h := nomatch h
  names name hname := by rw [htu.names name hname, hst.names name hname, Option.map_map]

end Store

/-- Files that share neither source file nor name. -/
structure Analysis.Independent (a b : Analysis) : Prop where
  source : a.source.same b.source = false
  disjoint : ∀ name ∈ a.declared, name ∉ b.declared

instance (a b : Analysis) : Decidable (a.Independent b) :=
  decidable_of_iff (a.source.same b.source = false ∧ ∀ name ∈ a.declared, name ∉ b.declared)
    ⟨fun ⟨hsource, hdisjoint⟩ => ⟨hsource, hdisjoint⟩, fun h => ⟨h.source, h.disjoint⟩⟩

theorem Analysis.Independent.symm {a b : Analysis} (h : a.Independent b) : b.Independent a :=
  ⟨(FilePath.same_comm _ _).trans h.source, fun name hb ha => h.disjoint name ha hb⟩

namespace Store

variable {s t : Store} {a b : Analysis} {as bs : List Analysis}

/-- **Two independent files can be merged in either order.** -/
theorem renumbers_swap (hs : s.Sound) (ha : a.Sound) (hb : b.Sound) (hab : a.Independent b) :
    Renumbers (Graph.exchange s.graph.size a.graph.size b.graph.size) ((s.merge a).merge b)
      ((s.merge b).merge a) := by
  have hsa : (s.merge a).graph.size = s.graph.size + a.graph.size := Graph.size_append _ _
  have hsb : (s.merge b).graph.size = s.graph.size + b.graph.size := Graph.size_append _ _
  refine ⟨Graph.embeds_swap hs.closed ha.closed hb.closed, ?_, (fun _ _ h => nomatch h),
    fun name _ => ?_⟩
  · have hfirst : (a.tree.map (s.graph.size + ·)).map
        (Graph.exchange s.graph.size a.graph.size b.graph.size) =
        a.tree.map ((s.merge b).graph.size + ·) := by
      rw [List.map_map, hsb]
      exact List.map_congr_left fun i hi => Graph.exchange_first (ha.tree_lt i hi)
    have hsecond : (b.tree.map ((s.merge a).graph.size + ·)).map
        (Graph.exchange s.graph.size a.graph.size b.graph.size) =
        b.tree.map (s.graph.size + ·) := by
      rw [List.map_map, hsa]
      exact List.map_congr_left fun i hi => Graph.exchange_second (hb.tree_lt i hi)
    show treesOf _ (insertTree a.source (a.tree.map ((s.merge b).graph.size + ·))
        (insertTree b.source (b.tree.map (s.graph.size + ·)) s.trees)) =
      (insertTree b.source (b.tree.map ((s.merge a).graph.size + ·))
        (insertTree a.source (a.tree.map (s.graph.size + ·)) s.trees)).map _
    rw [treesOf_true, map_insertTree, map_insertTree, hfirst, hsecond,
      map_move_eq_self hs fun id hid => Graph.exchange_before hid,
      insertTree_comm hs.ordered hab.source]
  · rw [get?_merge, get?_merge, get?_merge, get?_merge, hsa, hsb]
    cases hna : a.names.get? name with
    | none =>
      cases hnb : b.names.get? name with
      | none => exact (map_get?_eq_self hs (fun id hid => Graph.exchange_before hid) name).symm
      | some i => exact congrArg some (Graph.exchange_second (hb.names name i hnb)).symm
    | some i =>
      have hnb : b.names.get? name = none := by
        rw [Option.eq_none_iff_forall_not_mem]
        exact fun j hj => hab.disjoint name (ha.known name i hna) (hb.known name j hj)
      rw [hnb]
      exact congrArg some (Graph.exchange_first (ha.names name i hna)).symm

/-- **Independent files can be merged in any order.** -/
theorem exists_renumbers (h : as.Perm bs) (hs : s.Sound) (has : ∀ a ∈ as, a.Sound)
    (hind : as.Pairwise Analysis.Independent) :
    ∃ move, Renumbers move (as.foldl Store.merge s) (bs.foldl Store.merge s) := by
  induction h generalizing s with
  | nil => exact ⟨id, .refl s⟩
  | cons a _ ih =>
    obtain ⟨ha, has⟩ := List.forall_mem_cons.1 has
    exact ih (hs.merge ha) has (List.pairwise_cons.1 hind).2
  | swap a b l =>
    obtain ⟨hb, has⟩ := List.forall_mem_cons.1 has
    obtain ⟨ha, -⟩ := List.forall_mem_cons.1 has
    have hab : b.Independent a := (List.pairwise_cons.1 hind).1 a List.mem_cons_self
    -- the files after the two are merged into stores of which one renumbers the other
    exact ⟨_, (renumbers_swap hs hb ha hab).foldl_merge (fun _ _ _ => rfl)
      (hs.merge ha |>.merge hb).ordered fun _ _ => rfl⟩
  | trans hab _ ih ih' =>
    obtain ⟨move, hmove⟩ := ih hs has hind
    have has' : ∀ a : Analysis, a ∈ _ → a.Sound := fun a ha => has a (hab.mem_iff.2 ha)
    obtain ⟨move', hmove'⟩ := ih' hs has' (hind.perm hab fun h => h.symm)
    exact ⟨_, hmove.trans hmove'⟩

end Store

/-! ### Unrelated files -/

/-- The spellings of the references of a node. -/
def Node.spellings (n : Node) : List String := n.sites.filterMap fun (site, _) => n.spelling? site

theorem Node.mem_spellings {n : Node} {site : Site} {spelling : String}
    (h : n.spelling? site = some spelling) : spelling ∈ n.spellings := by
  have hlink : ∃ l, n.linkAt? site = some l := by
    cases site with
    | base i =>
      obtain ⟨b, hb, -⟩ := Option.map_eq_some_iff.1 h
      exact ⟨b.link, congrArg (Option.map _) hb⟩
    | field path =>
      obtain ⟨e, he, -⟩ := Option.bind_eq_some_iff.1 h
      exact ⟨e.link, congrArg (Option.map _) he⟩
  obtain ⟨l, hl⟩ := hlink
  exact List.mem_filterMap.2 ⟨(site, l), mem_sites_iff.2 hl, h⟩

/-- The spellings of the references in a file. -/
def Analysis.spelled (a : Analysis) : List String := a.graph.nodes.flatMap Node.spellings

/-- A file of another source, none of whose types has a name that the other file spells, with or
without a leading `::`. -/
structure Analysis.Unrelated (a b : Analysis) : Prop where
  source : a.source.same b.source = false
  unspelled : ∀ spelling ∈ b.spelled, spelling ∉ a.declared
  unspelledGlobal : ∀ name ∈ b.spelled.filterMap Names.withoutGlobal?, name ∉ a.declared

instance (a b : Analysis) : Decidable (a.Unrelated b) :=
  decidable_of_iff (a.source.same b.source = false ∧
      (∀ spelling ∈ b.spelled, spelling ∉ a.declared) ∧
      ∀ name ∈ b.spelled.filterMap Names.withoutGlobal?, name ∉ a.declared)
    ⟨fun ⟨hsource, hname, hglobal⟩ => ⟨hsource, hname, hglobal⟩,
      fun h => ⟨h.source, h.unspelled, h.unspelledGlobal⟩⟩

section

variable {as before after : List Analysis}

/-- The source files of the trees are those of the files that were merged. -/
theorem source_of_mem_mergeAll {t : Tree} (h : t ∈ (mergeAll as).trees) :
    ∃ a ∈ as, t.source = a.source := by
  induction as using List.reverseRecOn generalizing t with
  | nil => cases h
  | append_singleton as a ih =>
    rw [trees_mergeAll_concat] at h
    rcases source_mem_insertTree h with ht | ⟨u, hu, ht⟩
    · exact ⟨a, by simp, ht⟩
    · obtain ⟨b, hb, hsource⟩ := ih hu
      exact ⟨b, List.mem_append_left _ hb, ht.trans hsource⟩

/-- The nodes of a merged store are those of the files, with other links. -/
theorem exists_node_of_mergeAll {id : NodeId} {n : Node}
    (h : (mergeAll as).graph.node? id = some n) :
    ∃ a ∈ as, ∃ i m, a.graph.node? i = some m ∧ n.unlinked = m.unlinked := by
  induction as using List.reverseRecOn generalizing id n with
  | nil => cases h
  | append_singleton as a ih =>
    rw [mergeAll_concat] at h
    rcases Nat.lt_or_ge id (mergeAll as).graph.size with hid | hid
    · obtain ⟨b, hb, hnode⟩ := ih ((node?_append_left hid).symm.trans h)
      exact ⟨b, List.mem_append_left _ hb, hnode⟩
    · obtain ⟨i, rfl⟩ := Nat.exists_eq_add_of_le hid
      obtain ⟨m, hm, rfl⟩ := Option.map_eq_some_iff.1 ((node?_append_right _ _ _).symm.trans h)
      exact ⟨a, by simp, i, m, hm, Node.unlinked_mapLinks m _⟩

/-- Trees of one source file are one tree. -/
theorem length_treesOf_le_one {ts : List Tree} (h : Ordered ts) {p : FilePath} :
    (treesOf (p.same ·) ts).length ≤ 1 := by
  have hordered : Ordered (treesOf (p.same ·) ts) := h.filter _
  have hsame : ∀ t ∈ treesOf (p.same ·) ts, p.same t.source = true := fun t ht =>
    (List.mem_filter.1 ht).2
  generalize treesOf (p.same ·) ts = us at hordered hsame
  rcases us with - | ⟨t, - | ⟨u, us⟩⟩
  · exact Nat.zero_le _
  · exact Nat.le_refl _
  · have hlt := (List.pairwise_cons.1 hordered).1 u List.mem_cons_self
    have hother := FilePath.same_eq_false_of_compare (p := t.source) (q := u.source)
      (by rw [hlt]; exact Ordering.noConfusion)
    rw [FilePath.same_comm, ← FilePath.same_congr_left (hsame t List.mem_cons_self),
      hsame u (by simp)] at hother
    cases hother

/-- The source files that none of some files describes. -/
def spared (xs : List Analysis) (p : FilePath) : Bool := xs.all fun x => !x.source.same p

theorem spared_congr (xs : List Analysis) {p q : FilePath} (h : p.same q = true) :
    spared xs p = spared xs q := by
  unfold spared
  congr 1
  funext x
  rw [FilePath.same_comm, FilePath.same_congr_left h, FilePath.same_comm]

/-- **A store embeds in the one that has an unrelated file besides**, merged at any place; the
spellings in the smaller store stand for none of its types. -/
theorem exists_embeds_mergeAll {xs : List Analysis} (hone : xs.length ≤ 1)
    (hsound : ∀ a ∈ before ++ xs ++ after, a.Sound)
    (hunrelated : ∀ x ∈ xs, ∀ b ∈ before ++ after, x.Unrelated b) :
    ∃ move, Store.Embeds move (spared xs) (fun name => ∀ x ∈ xs, name ∉ x.declared)
        (mergeAll (before ++ after)) (mergeAll (before ++ xs ++ after)) ∧
      (mergeAll (before ++ after)).Spells (fun name => ∀ x ∈ xs, name ∉ x.declared) ∧
      (treesOf (!spared xs ·) (mergeAll (before ++ xs ++ after)).trees).length ≤ 1 := by
  have hkept : ∀ b ∈ before ++ after, spared xs b.source = true := by
    intro b hb
    rw [spared, List.all_eq_true]
    intro x hx
    rw [(hunrelated x hx b hb).source, Bool.not_false]
  have hspells : (mergeAll (before ++ after)).Spells fun name => ∀ x ∈ xs, name ∉ x.declared := by
    intro id n site spelling hn hspelling name hname x hx
    obtain ⟨b, hb, i, m, hm, hsame⟩ := exists_node_of_mergeAll hn
    rw [Node.spelling?_eq_of_unlinked hsame] at hspelling
    have hmem : spelling ∈ b.spelled :=
      List.mem_flatMap.2 ⟨m, List.mem_of_getElem? hm, Node.mem_spellings hspelling⟩
    rcases hname with rfl | hglobal
    · exact (hunrelated x hx b hb).unspelled _ hmem
    · exact (hunrelated x hx b hb).unspelledGlobal name
        (List.mem_filterMap.2 ⟨spelling, hmem, hglobal⟩)
  rcases xs with - | ⟨x, - | ⟨y, ys⟩⟩
  · rw [List.append_nil]
    refine ⟨id, ?_, hspells, ?_⟩
    · have hsame := Store.Renumbers.refl (mergeAll (before ++ after))
      exact ⟨hsame.graph, hsame.trees, hsame.apart, fun name _ => hsame.names name trivial⟩
    · rw [treesOf, List.filter_eq_nil_iff.2 (by simp [spared])]
      exact Nat.zero_le _
  · have hbefore : ∀ b ∈ before, b.Sound := fun b hb => hsound b (by simp [hb])
    have hx : x.Sound := hsound x (by simp)
    have hspared : spared [x] = fun p => !x.source.same p := by
      funext p
      simp [spared]
    refine ⟨Graph.gap (mergeAll before).graph.size x.graph.size, ?_, hspells, ?_⟩
    · have hstart := Store.embeds_merge (sound_mergeAll hbefore) hx (spared [x])
        (fun p q h => spared_congr [x] h) (fun t ht => ?_) (by simp [hspared, FilePath.same])
      · have hrest := hstart.foldl_merge (fun p q h => spared_congr [x] h)
          ((sound_mergeAll hbefore).merge hx).ordered
          fun b (hb : b ∈ after) => hkept b (List.mem_append_right _ hb)
        simpa [mergeAll] using hrest
      · obtain ⟨b, hb, hsource⟩ := source_of_mem_mergeAll ht
        exact hsource ▸ hkept b (List.mem_append_left _ hb)
    · simp only [hspared, Bool.not_not]
      exact length_treesOf_le_one (ordered_mergeAll _)
  · exact absurd hone (by simp)

end

end Schema
end Marshal
