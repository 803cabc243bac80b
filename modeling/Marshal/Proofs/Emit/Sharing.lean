import Marshal.Proofs.Emit.Unfold
import Marshal.Proofs.Schema.Restored

/-!
# Code and sharing

Two graphs may describe the same types and still differ in which of them are one node and which are
several that look the same.  Code does not tell them apart.

A bundle that is restored in the graph it was taken from is such a case.  Its nodes come back as
new ones, but each of them still holds the links that it held, and a link that is set stays; so the
new nodes refer to the old ones, and nothing that the table of the bundle says has any effect.

## Main results

* `Bundle.restore_capture_self` — a bundle restored in the graph it was taken from.
* `generate_append` — nodes that are added to a graph change no code.
* `generate_bisimilar` — nodes that are related have the same code.
-/

namespace Marshal

open Schema

/-! ### Bundles in the graph they were taken from -/

namespace Schema

namespace Bundle

open Schema.Graph

variable {g : Graph} {root : NodeId} (hg : g.Closed) (hroot : root < g.size)

include hg hroot

theorem getElem?_nodes_capture {a i : NodeId} (ha : (g.reach root)[i]? = some a) :
    (capture g root).nodes[i]? = g.node? a := by
  obtain ⟨n, hn⟩ := node?_of_mem_reach hg hroot (List.mem_of_getElem? ha)
  rw [nodes_capture hg hroot, List.getElem?_map, ha, Option.map_some, hn, Option.getD_some]

/-- A node of a bundle holds the links that it holds in the graph. -/
theorem linkAt?_append_capture {a i : NodeId} (ha : (g.reach root)[i]? = some a) (site : Site) :
    Graph.linkAt? ⟨g.nodes ++ (capture g root).nodes⟩ (g.size + i) site = g.linkAt? a site := by
  rw [linkAt?_append, getElem?_nodes_capture hg hroot ha, Graph.linkAt?]

/-- **A bundle that is restored in the graph it was taken from adds its nodes as they are**, since
each link of its table is of a site that holds one. -/
theorem restore_capture_self :
    (capture g root).restore g = .ok (⟨g.nodes ++ (capture g root).nodes⟩, g.size) := by
  have hne : (capture g root).nodes ≠ [] := by
    intro h
    have hfirst := getElem?_nodes_capture hg hroot (getElem?_zero_reach (g := g))
    obtain ⟨n, hn⟩ := node?_eq_some_of_lt hroot
    rw [h, hn] at hfirst
    cases hfirst
  -- what the table says of a site, the site holds already
  have hset : ∀ l ∈ (capture g root).links, ∃ b,
      Graph.linkAt? ⟨g.nodes ++ (capture g root).nodes⟩ (g.size + l.holder) l.site =
        some (some b) := by
    rintro ⟨i, site, j⟩ hl
    obtain ⟨a, b, ha, hb, -⟩ := mem_links_capture_iff.1 hl
    exact ⟨b, (linkAt?_append_capture hg hroot ha site).trans hb⟩
  have hfits : ∀ l ∈ (capture g root).links,
      Fits g.size (capture g root).nodes.length ⟨g.nodes ++ (capture g root).nodes⟩ l := by
    intro l hl
    have hunlinked := fits_capture hg hroot hl
    obtain ⟨b, hb⟩ := hset l hl
    rw [unlinked, Fits, List.length_map] at hunlinked
    exact ⟨hunlinked.1, hunlinked.2.1, by simp [hb]⟩
  obtain ⟨g', hrestore, hdescriptions, hlinks⟩ := restore_eq_ok hne hfits
  refine hrestore.trans (congrArg (fun h => Except.ok (h, g.size)) ?_)
  refine Graph.eq_of_unlinked_of_linkAt? hdescriptions fun a site => ?_
  rw [hlinks]
  cases hsite : Graph.linkAt? ⟨g.nodes ++ (capture g root).nodes⟩ a site with
  | none => rfl
  | some link =>
    cases link with
    | some b => rfl
    | none =>
      have hnone : targetOf? g.size (capture g root).links a site = none := by
        rw [targetOf?, Option.map_eq_none_iff, List.find?_eq_none]
        rintro l hl hc
        obtain ⟨rfl, rfl⟩ := of_decide_eq_true hc
        obtain ⟨b, hb⟩ := hset l hl
        rw [hb] at hsite
        cases hsite
      rw [Option.map_some, hnone]
      rfl

omit hroot in
/-- The nodes that are added refer to nodes that were there before. -/
theorem targets_append_capture {a b : NodeId} (ha : g.size ≤ a)
    (hb : b ∈ Graph.targets ⟨g.nodes ++ (capture g root).nodes⟩ a) : b < g.size := by
  obtain ⟨i, rfl⟩ := Nat.exists_eq_add_of_le ha
  cases hn : Graph.node? ⟨g.nodes ++ (capture g root).nodes⟩ (g.size + i) with
  | none => simp [Graph.targets, hn] at hb
  | some n =>
    rw [targets_eq hn] at hb
    have hi : (capture g root).nodes[i]? = some n := by
      rw [← hn, node?, size, List.getElem?_append_right (Nat.le_add_right _ _),
        Nat.add_sub_cancel_left]
    -- a node of the bundle is a node of the graph
    obtain ⟨c, -, hc⟩ := List.mem_filterMap.1 (List.mem_of_getElem? hi)
    refine hg c b ?_
    rwa [targets_eq hc]

end Bundle

section

variable {g : Graph} {a : NodeId} {n : Node}

theorem Graph.node?_append_nodes (hn : g.node? a = some n) (ns : List Node) :
    Graph.node? ⟨g.nodes ++ ns⟩ a = some n := by
  rw [node?, List.getElem?_append_left (lt_size_of_node? hn)]
  exact hn

/-- A node refers to nodes of its graph. -/
theorem Graph.Closed.alike_self (hg : g.Closed) (hn : g.node? a = some n) :
    n.Alike (fun b c => b = c ∧ b < g.size) n :=
  Node.alike_self fun site b hb =>
    ⟨rfl, hg a b (Bundle.mem_targets_of_linkAt? ((linkAt?_eq hn site).trans hb))⟩

/-- A graph is related to one that has further nodes. -/
theorem Graph.Closed.bisimulation_append (hg : g.Closed) (ns : List Node) :
    g.Bisimulation ⟨g.nodes ++ ns⟩ fun b c => b = c ∧ b < g.size := by
  rintro b _ ⟨rfl, hb⟩
  obtain ⟨m, hm⟩ := node?_eq_some_of_lt hb
  rw [hm, node?_append_nodes hm]
  exact .some (hg.alike_self hm)

end

end Schema

/-! ### Code -/

namespace Emit

/-- Nodes that are added to a graph change no code. -/
theorem generate_append {g : Graph} (hg : g.Closed) (ns : List Node) {id : NodeId} {n : Node}
    (hn : g.node? id = some n) : generate ⟨g.nodes ++ ns⟩ n = generate g n :=
  (generate_alike (hg.bisimulation_append ns) (hg.alike_self hn)).symm

/-- **Nodes that are related have the same code**, or none for the same reason, whatever graphs they
are in: code depends on what links unfold to.  So a node has the same code as the one that its
bundle is restored to in its own graph, where the restored nodes are new ones, the first of them
with the description and the links of the node, and refer to those that were there before. -/
theorem generate_bisimilar :
    (∀ (g h : Graph) (r : NodeId → NodeId → Prop), g.Bisimulation h r →
      ∀ a b n m, r a b → g.node? a = some n → h.node? b = some m →
        generate g n = generate h m) ∧
    ∀ (g : Graph) (root : NodeId) (n : Node), g.Closed → g.node? root = some n →
      ∃ g' root', (Bundle.capture g root).restore g = .ok (g', root') ∧
        g'.node? root' = some n ∧ generate g' n = generate g n ∧
        (∀ a, a < g.size → g'.node? a = g.node? a) ∧
        g.size ≤ root' ∧ ∀ a b, g.size ≤ a → b ∈ g'.targets a → b < g.size := by
  refine ⟨fun g h r hr a b n m hab hn hm => ?_, fun g root n hg hn => ?_⟩
  · have halike := hr a b hab
    rw [hn, hm] at halike
    cases halike with
    | some halike => exact generate_alike hr halike
  · have hroot := Graph.lt_size_of_node? hn
    refine ⟨_, _, Bundle.restore_capture_self hg hroot, ?_, generate_append hg _ hn, fun a ha => ?_,
      Nat.le_refl _, fun a b ha hb => Bundle.targets_append_capture hg ha hb⟩
    · have hfirst := Bundle.getElem?_nodes_capture hg hroot (Graph.getElem?_zero_reach (g := g))
      rw [Graph.node?, Graph.size, List.getElem?_append_right (Nat.le_refl _), Nat.sub_self, hfirst,
        hn]
    · exact List.getElem?_append_left ha

/-- A point that is written out where it is used. -/
def knot : Node :=
  ⟨"Knot", .pod, [], [⟨"x", "", .scalar .int, "int", .anyone, none⟩], []⟩

/-- A line between two points, and lists of further lines. -/
def edge (source target next : NodeId) : Node :=
  ⟨"Edge", .all, [], [⟨"from", "", .pod, "Knot", .anyone, some source⟩,
    ⟨"to", "", .pod, "Knot", .anyone, some target⟩,
    ⟨"next", "", .vector ⟨"", "", .object, "Edge", .anyone, some next⟩, "", .anyone, none⟩],
    [⟨"Edge", some next⟩]⟩

/-- One point, and a line that refers to itself. -/
def folded : Graph := ⟨[edge 1 1 0, knot]⟩

/-- Two points, and two lines that refer to each other. -/
def unfolded : Graph := ⟨[edge 1 2 3, knot, knot, edge 2 1 0]⟩

/-- What stands for what in them. -/
def unfolds (a b : NodeId) : Prop := a = 0 ∧ (b = 0 ∨ b = 3) ∨ a = 1 ∧ (b = 1 ∨ b = 2)

theorem alike_edge {r : NodeId → NodeId → Prop} {s t n s' t' n' : NodeId} (hs : r s s')
    (ht : r t t') (hn : r n n') : (edge s t n).Alike r (edge s' t' n') where
  name := rfl
  isPod := rfl
  fields := .cons (.intro rfl rfl rfl rfl (.some hs) .pod) <|
    .cons (.intro rfl rfl rfl rfl (.some ht) .pod) <|
    .cons (.intro rfl rfl rfl rfl .none (.vector (.intro rfl rfl rfl rfl (.some hn) .object))) .nil
  bases := .cons (.some hn) .nil

theorem bisimulation_folded : folded.Bisimulation unfolded unfolds := by
  have hknot : knot.Alike unfolds knot := Node.alike_self fun site b hb => by
    have hsite := Node.mem_sites_iff.2 hb
    simp [knot, Node.sites, Field.paths, Field.pathsInside] at hsite
  rintro _ _ (⟨rfl, rfl | rfl⟩ | ⟨rfl, rfl | rfl⟩)
  · exact .some (alike_edge (.inr ⟨rfl, .inl rfl⟩) (.inr ⟨rfl, .inr rfl⟩) (.inl ⟨rfl, .inr rfl⟩))
  · exact .some (alike_edge (.inr ⟨rfl, .inr rfl⟩) (.inr ⟨rfl, .inl rfl⟩) (.inl ⟨rfl, .inl rfl⟩))
  · exact .some hknot
  · exact .some hknot

/-- The plan of a line. -/
def edgePlan : List (Member Shape) :=
  [⟨["from"], "x", "from.x", .number "int"⟩, ⟨["to"], "x", "to.x", .number "int"⟩,
    ⟨[], "next", "next", .vector .object⟩]

theorem generate_bisimilar_folded :
    (folded.Bisimulation unfolded unfolds ∧ unfolds 0 3 ∧
      generate unfolded (edge 2 1 0) = .ok (routinesText "Edge" edgePlan)) ∧
    folded.Closed ∧ ∃ g' root', (Bundle.capture folded 0).restore folded = .ok (g', root') ∧
      g'.node? root' = some (edge 1 1 0) ∧
      generate g' (edge 1 1 0) = .ok (routinesText "Edge" edgePlan) := by
  have hplan : plan folded (flatten folded (edge 1 1 0)) = .ok edgePlan := by cbv
  have hcode : generate folded (edge 1 1 0) = .ok (routinesText "Edge" edgePlan) :=
    generate_eq_ok.2 ⟨rfl, edgePlan, hplan, rfl⟩
  have hpair : unfolds 0 3 := .inl ⟨rfl, .inr rfl⟩
  have hclosed : folded.Closed := by decide
  have hunfolded :=
    generate_bisimilar.1 folded unfolded unfolds bisimulation_folded 0 3 _ _ hpair rfl rfl
  obtain ⟨g', root', hrestore, hnode, hrestored, -⟩ :=
    generate_bisimilar.2 folded 0 _ hclosed rfl
  exact ⟨⟨bisimulation_folded, hpair, hunfolded.symm.trans hcode⟩, hclosed, g', root', hrestore,
    hnode, hrestored.trans hcode⟩

end Emit
end Marshal
