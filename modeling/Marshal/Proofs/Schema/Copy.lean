import Marshal.Proofs.Schema.Replay

/-!
# The copy that a bundle makes

A bundle numbers the nodes that can be reached by their places in the walk.  What comes back from
it is the graph of these nodes with all links renumbered, its **copy**, whatever way the nodes
refer to each other; and the walk through the copy takes the same way, so that the copy has the
same bundle.

## Main definitions

* `Graph.number` — the number a node has in the copy.
* `Graph.copy` — the nodes that can be reached, renumbered.
* `Graph.Mirrors` — a graph is what can be reached from a node of another.
* `Bundle.unlinked` — a bundle whose nodes hold no links, as it is handed over.

## Main results

* `mirrors_copy` — the copy is what can be reached.
* `restore_capture` — the bundle of a node is restored to the copy.
* `capture_copy` — the bundle of the copy is the bundle of the node.
-/

namespace Marshal
namespace Schema

/-! ### Numbers -/

namespace Graph

/-- The number that a node has among those that can be reached. -/
def number (g : Graph) (root a : NodeId) : NodeId := (g.reach root).idxOf a

/-- The nodes that can be reached, renumbered. -/
def copy (g : Graph) (root : NodeId) : Graph :=
  ⟨(g.reach root).filterMap fun a => (g.node? a).map (·.mapLinks (g.number root))⟩

/-- The nodes of `h` are, under new numbers, the nodes of `g` that can be reached from `root`:
one for each, with the same description, and with links where it has links, to the nodes that
stand for those it refers to. -/
structure Mirrors (g : Graph) (root : NodeId) (h : Graph) (number : NodeId → NodeId) : Prop where
  start : number root = 0
  injective : ∀ a b, g.Reaches root a → g.Reaches root b → number a = number b → a = b
  surjective : ∀ i, i < h.size ↔ ∃ a, g.Reaches root a ∧ number a = i
  contents : ∀ a, g.Reaches root a →
    (h.node? (number a)).map Node.unlinked = (g.node? a).map Node.unlinked
  links : ∀ a, g.Reaches root a →
    ∀ site, h.linkAt? (number a) site = (g.linkAt? a site).map (Option.map number)

variable {g : Graph} {root : NodeId}

theorem getElem?_reach_iff {a i : NodeId} :
    (g.reach root)[i]? = some a ↔ a ∈ g.reach root ∧ g.number root a = i := by
  constructor
  · intro h
    obtain ⟨hi, rfl⟩ := List.getElem?_eq_some_iff.1 h
    exact ⟨List.getElem_mem hi, nodup_reach.idxOf_getElem i hi⟩
  · rintro ⟨h, rfl⟩
    have hlt : (g.reach root).idxOf a < (g.reach root).length := List.idxOf_lt_length_iff.2 h
    rw [number, List.getElem?_eq_getElem hlt, List.getElem_idxOf hlt]

theorem number_lt {a : NodeId} (h : a ∈ g.reach root) :
    g.number root a < (g.reach root).length := List.idxOf_lt_length_iff.2 h

theorem number_root : g.number root root = 0 :=
  (getElem?_reach_iff.1 getElem?_zero_reach).2

theorem number_inj {a b : NodeId} (ha : a ∈ g.reach root) (hb : b ∈ g.reach root)
    (h : g.number root a = g.number root b) : a = b := by
  have h₁ := getElem?_reach_iff.2 ⟨ha, rfl⟩
  have h₂ := getElem?_reach_iff.2 ⟨hb, rfl⟩
  rw [h, h₂] at h₁
  exact (Option.some.inj h₁).symm

theorem idxOf?_reach {a : NodeId} (h : a ∈ g.reach root) :
    (g.reach root).idxOf? a = some (g.number root a) := by
  cases hi : (g.reach root).idxOf? a with
  | none => exact absurd h (List.idxOf?_eq_none_iff.1 hi)
  | some i =>
    obtain ⟨hlt, rfl, -⟩ := List.idxOf?_eq_some_iff.1 hi
    exact congrArg some (getElem?_reach_iff.1 (List.getElem?_eq_getElem hlt)).2.symm

theorem map_number_reach :
    (g.reach root).map (g.number root) = List.range (g.reach root).length := by
  refine List.ext_getElem (by simp) fun i h₁ h₂ => ?_
  rw [List.getElem_map, List.getElem_range]
  exact (getElem?_reach_iff.1 (List.getElem?_eq_getElem (by simpa using h₁))).2

/-! ### The nodes of the copy -/

section

variable (hg : g.Closed) (hroot : root < g.size)

include hg hroot

theorem node?_of_mem_reach {a : NodeId} (h : a ∈ g.reach root) : ∃ n, g.node? a = some n :=
  node?_eq_some_of_lt ((reaches_of_mem_reach h).lt_size hg hroot)

theorem nodes_reach (f : Node → Node) :
    (g.reach root).filterMap (fun a => (g.node? a).map f) =
      (g.reach root).map fun a => f ((g.node? a).getD default) := by
  rw [← List.filterMap_eq_map]
  refine List.filterMap_congr fun a ha => ?_
  obtain ⟨n, hn⟩ := node?_of_mem_reach hg hroot ha
  simp [hn]

theorem nodes_copy :
    (g.copy root).nodes =
      (g.reach root).map fun a => ((g.node? a).getD default).mapLinks (g.number root) :=
  nodes_reach hg hroot (·.mapLinks (g.number root))

@[simp] theorem size_copy : (g.copy root).size = (g.reach root).length := by
  rw [size, nodes_copy hg hroot, List.length_map]

/-- The copy has, under its number, every node that can be reached, with its links renumbered. -/
theorem node?_copy {a : NodeId} (h : a ∈ g.reach root) :
    (g.copy root).node? (g.number root a) = (g.node? a).map (·.mapLinks (g.number root)) := by
  obtain ⟨n, hn⟩ := node?_of_mem_reach hg hroot h
  rw [node?, nodes_copy hg hroot, List.getElem?_map, getElem?_reach_iff.2 ⟨h, rfl⟩]
  simp [hn]

theorem targets_copy {a : NodeId} (h : a ∈ g.reach root) :
    (g.copy root).targets (g.number root a) = (g.targets a).map (g.number root) := by
  obtain ⟨n, hn⟩ := node?_of_mem_reach hg hroot h
  have hc := node?_copy hg hroot h
  rw [hn, Option.map_some] at hc
  rw [targets_eq hn, targets_eq hc, Node.mapLinks_eq_relink, Node.sites_relink,
    List.filterMap_map, List.map_filterMap]
  rfl

theorem mem_reach_of_mem_targets {a b : NodeId} (h : a ∈ g.reach root) (hb : b ∈ g.targets a) :
    b ∈ g.reach root :=
  (mem_reach_iff hg hroot).2 (.step (reaches_of_mem_reach h) hb)

/-- The walk through the copy goes from each number to the next. -/
theorem reach_copy : (g.copy root).reach 0 = List.range (g.reach root).length := by
  have hinj : ∀ a b, g.Reaches root a → g.Reaches root b →
      g.number root a = g.number root b → a = b := fun a b ha hb =>
    number_inj ((mem_reach_iff hg hroot).2 ha) ((mem_reach_iff hg hroot).2 hb)
  have htargets : ∀ a, g.Reaches root a →
      (g.copy root).targets (g.number root a) = (g.targets a).map (g.number root) := fun a ha =>
    targets_copy hg hroot ((mem_reach_iff hg hroot).2 ha)
  have hmap := rounds_map hinj htargets (g.reach root).length
  rw [number_root, rounds_length_reach (length_reach_le hg hroot), map_number_reach] at hmap
  rw [reach_eq_rounds, size_copy hg hroot, hmap]

theorem linkAt?_copy {a : NodeId} (h : a ∈ g.reach root) (site : Site) :
    (g.copy root).linkAt? (g.number root a) site =
      (g.linkAt? a site).map (Option.map (g.number root)) := by
  obtain ⟨n, hn⟩ := node?_of_mem_reach hg hroot h
  have hcopy := node?_copy hg hroot h
  rw [hn, Option.map_some] at hcopy
  rw [linkAt?_eq hn, linkAt?_eq hcopy, Node.mapLinks_eq_relink, Node.linkAt?_relink]

/-- **The copy is, under new numbers, what can be reached.** -/
theorem mirrors_copy : g.Mirrors root (g.copy root) (g.number root) where
  start := number_root
  injective a b ha hb :=
    number_inj ((mem_reach_iff hg hroot).2 ha) ((mem_reach_iff hg hroot).2 hb)
  surjective i := by
    rw [size_copy hg hroot]
    constructor
    · intro hi
      obtain ⟨ha, hnumber⟩ := getElem?_reach_iff.1 (List.getElem?_eq_getElem hi)
      exact ⟨_, (mem_reach_iff hg hroot).1 ha, hnumber⟩
    · rintro ⟨a, ha, rfl⟩
      exact number_lt ((mem_reach_iff hg hroot).2 ha)
  contents a ha := by
    rw [node?_copy hg hroot ((mem_reach_iff hg hroot).2 ha), Option.map_map]
    refine congrArg (Option.map · (g.node? a)) (funext fun n => ?_)
    exact Node.unlinked_relink n _
  links a ha := linkAt?_copy hg hroot ((mem_reach_iff hg hroot).2 ha)

end

end Graph

/-! ### Bundles of the copy -/

namespace Bundle

open Schema.Graph

/-- A bundle whose nodes hold no links. -/
def unlinked (b : Bundle) : Bundle := ⟨b.nodes.map Node.unlinked, b.links⟩

variable {g : Graph} {root : NodeId}

theorem mem_linksOf_iff {order : List NodeId} {i : Nat} {a : NodeId} {l : BundleLink} :
    l ∈ linksOf g order i a ↔ l.holder = i ∧ ∃ b, g.linkAt? a l.site = some (some b) ∧
      order.idxOf? b = some l.target := by
  cases hn : g.node? a with
  | none => simp [linksOf, hn, linkAt?]
  | some n =>
    simp only [linksOf, hn, List.mem_filterMap, linkAt?_eq hn]
    constructor
    · rintro ⟨⟨site, link⟩, hs, h⟩
      obtain ⟨b, rfl, h⟩ := Option.bind_eq_some_iff.1 h
      obtain ⟨j, hj, rfl⟩ := Option.map_eq_some_iff.1 h
      exact ⟨rfl, b, Node.mem_sites_iff.1 hs, hj⟩
    · obtain ⟨holder, site, target⟩ := l
      rintro ⟨rfl, b, hb, hj⟩
      exact ⟨(site, some b), Node.mem_sites_iff.2 hb, by simp [hj]⟩

/-- A bundle has a link for every site that holds one. -/
theorem mem_links_capture_iff {l : BundleLink} :
    l ∈ (capture g root).links ↔ ∃ a b, (g.reach root)[l.holder]? = some a ∧
      g.linkAt? a l.site = some (some b) ∧ (g.reach root).idxOf? b = some l.target := by
  simp only [capture, List.mem_flatMap]
  constructor
  · rintro ⟨⟨a, i⟩, ha, h⟩
    obtain ⟨rfl, b, hb, hj⟩ := mem_linksOf_iff.1 h
    exact ⟨a, b, List.mk_mem_zipIdx_iff_getElem?.1 ha, hb, hj⟩
  · rintro ⟨a, b, ha, hb, hj⟩
    exact ⟨(a, l.holder), List.mk_mem_zipIdx_iff_getElem?.2 ha, mem_linksOf_iff.2 ⟨rfl, b, hb, hj⟩⟩

theorem targetOf?_capture_eq_none {a i : NodeId} {site : Site}
    (ha : (g.reach root)[i]? = some a) (h : g.linkAt? a site = some none) :
    targetOf? 0 (capture g root).links i site = none := by
  rw [targetOf?, Option.map_eq_none_iff, List.find?_eq_none]
  intro l hl hc
  simp only [Nat.zero_add, decide_eq_true_eq] at hc
  obtain ⟨a', b, ha', hb, -⟩ := mem_links_capture_iff.1 hl
  rw [hc.1, ha] at ha'
  rw [hc.2, ← Option.some.inj ha', h] at hb
  exact absurd hb (by simp)

theorem targetOf?_capture_eq_some {a i b : NodeId} {site : Site}
    (ha : (g.reach root)[i]? = some a) (h : g.linkAt? a site = some (some b))
    (hb : b ∈ g.reach root) :
    targetOf? 0 (capture g root).links i site = some (g.number root b) := by
  rw [targetOf?, Option.map_eq_some_iff]
  have hmem : ⟨i, site, g.number root b⟩ ∈ (capture g root).links :=
    mem_links_capture_iff.2 ⟨a, b, ha, h, idxOf?_reach hb⟩
  cases hf : (capture g root).links.find? fun l => 0 + l.holder = i ∧ l.site = site with
  | none => exact absurd (List.find?_eq_none.1 hf _ hmem) (by simp)
  | some l =>
    -- every link that names the site has the target of the node
    have hp := List.find?_some hf
    simp only [Nat.zero_add, decide_eq_true_eq] at hp
    obtain ⟨a', b', ha', hb', hj⟩ := mem_links_capture_iff.1 (List.mem_of_find?_eq_some hf)
    rw [hp.1, ha] at ha'
    rw [hp.2, ← Option.some.inj ha', h] at hb'
    obtain rfl := Option.some.inj (Option.some.inj hb')
    rw [idxOf?_reach hb] at hj
    exact ⟨l, rfl, by rw [Nat.zero_add, ← Option.some.inj hj]⟩

section

variable (hg : g.Closed) (hroot : root < g.size)

include hg hroot

theorem nodes_capture :
    (capture g root).nodes = (g.reach root).map fun a => (g.node? a).getD default := by
  show (g.reach root).filterMap g.node? = _
  simpa using nodes_reach hg hroot id

omit hg hroot in
theorem mem_targets_of_linkAt? {a b : NodeId} {site : Site}
    (h : g.linkAt? a site = some (some b)) : b ∈ g.targets a := by
  obtain ⟨n, hn, h⟩ := Option.bind_eq_some_iff.1 h
  rw [targets_eq hn, List.mem_filterMap]
  exact ⟨_, Node.mem_sites_iff.2 h, rfl⟩

/-- The nodes of a bundle have all sites, and no links. -/
theorem linkAt?_unlinked_capture {a i : NodeId} (ha : (g.reach root)[i]? = some a) (site : Site) :
    Graph.linkAt? ⟨(capture g root).unlinked.nodes⟩ i site =
      (g.linkAt? a site).map fun _ => none := by
  obtain ⟨n, hn⟩ := node?_of_mem_reach hg hroot (List.mem_of_getElem? ha)
  have hi : Graph.node? ⟨(capture g root).unlinked.nodes⟩ i = some n.unlinked := by
    rw [node?, unlinked, nodes_capture hg hroot]
    simp [ha, hn]
  rw [linkAt?_eq hi, linkAt?_eq hn, Node.unlinked_eq_relink, Node.linkAt?_relink]

theorem fits_capture {l : BundleLink} (hl : l ∈ (capture g root).links) :
    Fits 0 (capture g root).unlinked.nodes.length ⟨(capture g root).unlinked.nodes⟩ l := by
  obtain ⟨a, b, ha, hb, hj⟩ := mem_links_capture_iff.1 hl
  have hlen : (capture g root).unlinked.nodes.length = (g.reach root).length := by
    rw [unlinked, nodes_capture hg hroot, List.length_map, List.length_map]
  have hmem : a ∈ g.reach root := List.mem_of_getElem? ha
  have hbmem := mem_reach_of_mem_targets hg hroot hmem (mem_targets_of_linkAt? hb)
  refine ⟨?_, ?_, ?_⟩
  · rw [idxOf?_reach hbmem] at hj
    rw [hlen, ← Option.some.inj hj]
    exact number_lt hbmem
  · rw [hlen]
    exact (List.getElem?_eq_some_iff.1 ha).1
  · rw [Nat.zero_add, linkAt?_unlinked_capture hg hroot ha, hb]
    simp

/-- **The bundle of a node is restored to the copy of what can be reached from it.** -/
theorem restore_capture :
    (capture g root).unlinked.restore .empty = .ok (g.copy root, 0) := by
  have hne : (capture g root).unlinked.nodes ≠ [] := by
    rw [unlinked, nodes_capture hg hroot]
    simpa using List.ne_nil_of_mem (List.mem_of_getElem? (getElem?_zero_reach (g := g)))
  obtain ⟨h, hrestore, hu, hl⟩ := restore_eq_ok (g := .empty) hne fun l hl' =>
    fits_capture hg hroot hl'
  refine hrestore.trans (congrArg (fun g' => Except.ok (g', 0)) ?_)
  refine Graph.eq_of_unlinked_of_linkAt? ?_ fun i site => ?_
  · -- neither renumbering nor taking the links out changes a description
    rw [hu]
    unfold Graph.unlinked
    rw [nodes_copy hg hroot]
    show Graph.mk ((capture g root).unlinked.nodes.map Node.unlinked) = _
    rw [unlinked, nodes_capture hg hroot]
    simp only [List.map_map]
    refine congrArg Graph.mk (List.map_congr_left fun a _ => ?_)
    simp only [Function.comp, Node.mapLinks_eq_relink, Node.unlinked_relink]
    rw [Node.unlinked_eq_relink ((g.node? a).getD default), Node.unlinked_relink]
    rfl
  · rw [hl]
    change (Graph.linkAt? ⟨(capture g root).unlinked.nodes⟩ i site).map
      (fun k => k <|> targetOf? 0 (capture g root).links i site) = _
    cases ha : (g.reach root)[i]? with
    | none =>
      have hle : (g.reach root).length ≤ i := List.getElem?_eq_none_iff.1 ha
      rw [linkAt?_of_size_le, linkAt?_of_size_le, Option.map_none]
      · rw [size_copy hg hroot]
        exact hle
      · rw [size, unlinked, nodes_capture hg hroot, List.length_map, List.length_map]
        exact hle
    | some a =>
      -- a site that is linked gets its target from the table, one that is not has no entry there
      have hmem : a ∈ g.reach root := List.mem_of_getElem? ha
      have hcopy := linkAt?_copy hg hroot hmem site
      rw [(getElem?_reach_iff.1 ha).2] at hcopy
      rw [linkAt?_unlinked_capture hg hroot ha, hcopy]
      cases hs : g.linkAt? a site with
      | none => rfl
      | some link =>
        cases link with
        | none => simp [targetOf?_capture_eq_none ha hs]
        | some b =>
          have hb := mem_reach_of_mem_targets hg hroot hmem (mem_targets_of_linkAt? hs)
          simp [targetOf?_capture_eq_some ha hs hb]

theorem linksOf_copy {a i : NodeId} (h : a ∈ g.reach root) :
    linksOf (g.copy root) (List.range (g.reach root).length) i (g.number root a) =
      linksOf g (g.reach root) i a := by
  obtain ⟨n, hn⟩ := node?_of_mem_reach hg hroot h
  have hcopy := node?_copy hg hroot h
  rw [hn, Option.map_some] at hcopy
  simp only [linksOf, hn, hcopy, Node.mapLinks_eq_relink, Node.sites_relink, List.filterMap_map]
  refine List.filterMap_congr ?_
  rintro ⟨site, link⟩ hs
  cases link with
  | none => rfl
  | some b =>
    have hb : b ∈ g.reach root := by
      have hlink : g.linkAt? a site = some (some b) :=
        (linkAt?_eq hn site).trans (Node.mem_sites_iff.1 hs)
      exact mem_reach_of_mem_targets hg hroot h (mem_targets_of_linkAt? hlink)
    -- in the order of the copy, every number stands at its own place
    have hrange : (List.range (g.reach root).length).idxOf? (g.number root b) =
        some (g.number root b) := by
      refine List.idxOf?_eq_some_iff.2 ⟨by simpa using number_lt hb, by simp, fun j hj => ?_⟩
      rw [List.getElem_range]
      exact Nat.ne_of_lt hj
    simp [Function.comp, hrange, idxOf?_reach hb]

/-- **The bundle of the copy is the bundle of the node.** -/
theorem capture_copy : (capture (g.copy root) 0).unlinked = (capture g root).unlinked := by
  unfold unlinked capture
  simp only [reach_copy hg hroot, mk.injEq]
  constructor
  · rw [← map_number_reach, List.filterMap_map, List.map_filterMap, List.map_filterMap]
    refine List.filterMap_congr fun a ha => ?_
    rw [Function.comp, node?_copy hg hroot ha, Option.map_map]
    refine congrArg (Option.map · (g.node? a)) (funext fun n => ?_)
    exact Node.unlinked_relink n _
  · conv_lhs => rw [← map_number_reach, List.zipIdx_map, List.flatMap_map]
    refine List.flatMap_congr ?_
    rintro ⟨a, i⟩ ha
    have hget := List.mk_mem_zipIdx_iff_getElem?.1 ha
    simp only [Prod.map, id, map_number_reach]
    exact linksOf_copy hg hroot (List.mem_of_getElem? hget)

end

end Bundle
end Schema
end Marshal
