import Mathlib.Data.List.Nodup
import Marshal.Proofs.Schema.Copy
import Marshal.Proofs.Schema.Merged

/-!
# Graphs under other numbers

The number of a node depends on what was added to its graph before.  A graph **embeds** in another
if the other has its nodes under other numbers, with their links carried along; it may have further
nodes, which none of them refers to.  A walk sees no numbers, so the copies of a node are the same
in both graphs.

## Main definitions

* `Graph.Embeds` — a graph whose nodes another has under other numbers.
* `Graph.gap`, `Graph.exchange` — the numbers when a graph is added, and when two are exchanged.

## Main results

* `Graph.Embeds.copy_eq` — copies see no numbers.
* `Graph.Embeds.append` — what is added to both graphs.
* `Graph.embeds_append`, `Graph.embeds_swap` — graphs side by side.
-/

namespace Marshal
namespace Schema

/-! ### Nodes -/

namespace Node

@[simp] theorem unlinked_mapLinks (n : Node) (move : NodeId → NodeId) :
    (n.mapLinks move).unlinked = n.unlinked :=
  unlinked_relink n _

@[simp] theorem linkAt?_mapLinks (n : Node) (move : NodeId → NodeId) (site : Site) :
    (n.mapLinks move).linkAt? site = (n.linkAt? site).map (Option.map move) :=
  linkAt?_relink n _ site

@[simp] theorem spelling?_mapLinks (n : Node) (move : NodeId → NodeId) (site : Site) :
    (n.mapLinks move).spelling? site = n.spelling? site :=
  spelling?_eq_of_unlinked (unlinked_mapLinks n move) site

theorem mapLinks_mapLinks (n : Node) (move move' : NodeId → NodeId) :
    (n.mapLinks move).mapLinks move' = n.mapLinks (move' ∘ move) := by
  refine eq_of_unlinked_of_linkAt? (by simp) fun site => ?_
  simp only [linkAt?_mapLinks, Option.map_map]
  exact congrArg (Option.map · (n.linkAt? site)) (Option.map_comp_map move move')

theorem mapLinks_congr {n : Node} {move move' : NodeId → NodeId}
    (h : ∀ site target, n.linkAt? site = some (some target) → move target = move' target) :
    n.mapLinks move = n.mapLinks move' := by
  refine eq_of_unlinked_of_linkAt? (by simp) fun site => ?_
  rw [linkAt?_mapLinks, linkAt?_mapLinks]
  rcases hlink : n.linkAt? site with - | - | target
  · rfl
  · rfl
  · exact congrArg (some ∘ some) (h site target hlink)

theorem mapLinks_id (n : Node) : n.mapLinks id = n := by
  refine eq_of_unlinked_of_linkAt? (by simp) fun site => ?_
  rw [linkAt?_mapLinks, Option.map_id, Option.map_id]
  rfl

end Node

/-! ### Embeddings -/

namespace Graph

theorem closed_iff_linkAt? {g : Graph} :
    g.Closed ↔ ∀ a n site b, g.node? a = some n → n.linkAt? site = some (some b) → b < g.size := by
  constructor
  · intro hg a n site b hn hb
    exact hg a b (Bundle.mem_targets_of_linkAt? ((linkAt?_eq hn site).trans hb))
  · intro h a b hb
    cases hn : g.node? a with
    | none => simp [targets, hn] at hb
    | some n =>
      rw [targets_eq hn, List.mem_filterMap] at hb
      obtain ⟨⟨site, l⟩, hs, hb⟩ := hb
      obtain rfl : l = some b := hb
      exact h a n site b hn (Node.mem_sites_iff.1 hs)

theorem node?_of_size_le {g : Graph} {a : NodeId} (h : g.size ≤ a) : g.node? a = none :=
  List.getElem?_eq_none h

@[simp] theorem size_append (g h : Graph) : (g.append h).size = g.size + h.size := by
  simp [append, size]

/-- A graph whose nodes another has under other numbers; new nodes of both get numbers that
correspond. -/
structure Embeds (move : NodeId → NodeId) (g h : Graph) : Prop where
  injective : Function.Injective move
  move_size : ∀ i, move (g.size + i) = h.size + i
  node? : ∀ a, h.node? (move a) = (g.node? a).map (·.mapLinks move)

/-- The numbers with some left out from one on. -/
def gap (start count a : Nat) : Nat := if a < start then a else a + count

theorem gap_injective (start count : Nat) : Function.Injective (gap start count) := by
  intro a b h
  simp only [gap] at h
  split_ifs at h <;> omega

theorem gap_before {start count i : Nat} (h : i < start) : gap start count i = i := if_pos h

theorem gap_ne {start count : Nat} (a : Nat) {i : Nat} (h : i < count) :
    gap start count a ≠ start + i := by
  simp only [gap]
  split_ifs <;> omega

/-- The numbers with two blocks exchanged that follow each other from one on. -/
def exchange (start first second a : Nat) : Nat :=
  if a < start then a
  else if a < start + first then a + second
  else if a < start + first + second then a - first
  else a

section

variable (start first second : Nat)

theorem exchange_injective : Function.Injective (exchange start first second) := by
  intro a b h
  simp only [exchange] at h
  split_ifs at h <;> omega

variable {start first second} {i : Nat}

theorem exchange_before (h : i < start) : exchange start first second i = i := if_pos h

theorem exchange_first (h : i < first) :
    exchange start first second (start + i) = start + second + i := by
  simp only [exchange]
  split_ifs <;> omega

theorem exchange_second (h : i < second) :
    exchange start first second (start + first + i) = start + i := by
  simp only [exchange]
  split_ifs <;> omega

theorem exchange_after (i : Nat) :
    exchange start first second (start + first + second + i) = start + second + first + i := by
  simp only [exchange]
  split_ifs <;> omega

end

namespace Embeds

variable {move move' : NodeId → NodeId} {g h k : Graph}

theorem refl (g : Graph) : Embeds id g g where
  injective := Function.injective_id
  move_size _ := rfl
  node? a := by simp [Node.mapLinks_id]

theorem trans (hgh : Embeds move g h) (hhk : Embeds move' h k) : Embeds (move' ∘ move) g k where
  injective := hhk.injective.comp hgh.injective
  move_size i := by rw [Function.comp_apply, hgh.move_size, hhk.move_size]
  node? a := by
    rw [Function.comp_apply, hhk.node?, hgh.node?, Option.map_map]
    exact congrArg (Option.map · (g.node? a)) (funext fun n => n.mapLinks_mapLinks move move')

theorem targets (he : Embeds move g h) (a : NodeId) :
    h.targets (move a) = (g.targets a).map move := by
  have hnode := he.node? a
  cases hn : g.node? a with
  | none =>
    rw [hn, Option.map_none] at hnode
    simp [Graph.targets, hn, hnode]
  | some n =>
    rw [hn, Option.map_some] at hnode
    rw [targets_eq hn, targets_eq hnode, Node.mapLinks_eq_relink, Node.sites_relink,
      List.filterMap_map, List.map_filterMap]
    rfl

theorem lt_size (he : Embeds move g h) {a : NodeId} (ha : a < g.size) : move a < h.size := by
  obtain ⟨n, hn⟩ := node?_eq_some_of_lt ha
  have hnode := he.node? a
  rw [hn, Option.map_some] at hnode
  exact lt_size_of_node? hnode

theorem size_le (he : Embeds move g h) : g.size ≤ h.size := by
  have hnodup : ((List.range g.size).map move).Nodup :=
    List.Nodup.map he.injective List.nodup_range
  have hsub : (List.range g.size).map move ⊆ List.range h.size := by
    intro b hb
    obtain ⟨a, ha, rfl⟩ := List.mem_map.1 hb
    exact List.mem_range.2 (he.lt_size (List.mem_range.1 ha))
  simpa using hnodup.length_le_of_subset hsub

/-- **A walk sees no numbers.** -/
theorem reach_eq (he : Embeds move g h) (hg : g.Closed) {root : NodeId} (hroot : root < g.size) :
    h.reach (move root) = (g.reach root).map move := by
  have hrounds : h.reach (move root) = (g.rounds root h.size).map move :=
    rounds_map (fun a b _ _ hab => he.injective hab) (fun a _ => he.targets a) h.size
  -- the larger graph has rounds to spare
  rw [hrounds, rounds_of_length_le (length_rounds_le hg hroot _) he.size_le]
  rfl

theorem idxOf_map (he : Embeds move g h) (l : List NodeId) (a : NodeId) :
    (l.map move).idxOf (move a) = l.idxOf a := by
  induction l with
  | nil => rfl
  | cons b l ih =>
    have hb : (move b == move a) = (b == a) := by
      rw [Bool.eq_iff_iff, beq_iff_eq, beq_iff_eq, he.injective.eq_iff]
    rw [List.map_cons, List.idxOf_cons, List.idxOf_cons, hb, ih]

/-- **A node has the same copy under other numbers.** -/
theorem copy_eq (he : Embeds move g h) (hg : g.Closed) {root : NodeId} (hroot : root < g.size) :
    h.copy (move root) = g.copy root := by
  have hnumber : h.number (move root) ∘ move = g.number root := by
    funext a
    rw [Function.comp_apply, number, number, he.reach_eq hg hroot, he.idxOf_map]
  unfold copy
  rw [he.reach_eq hg hroot, List.filterMap_map]
  refine congrArg Graph.mk (List.filterMap_congr fun a _ => ?_)
  rw [Function.comp_apply, he.node?, Option.map_map, ← hnumber]
  exact congrArg (Option.map · (g.node? a)) (funext fun n => n.mapLinks_mapLinks move _)

/-- **What is added to both graphs** is the same under the numbers it gets. -/
theorem append (he : Embeds move g h) (k : Graph) : Embeds move (g.append k) (h.append k) where
  injective := he.injective
  move_size i := by rw [size_append, size_append, Nat.add_assoc, he.move_size, Nat.add_assoc]
  node? a := by
    rcases Nat.lt_or_ge a g.size with ha | ha
    · rw [node?_append_left ha, node?_append_left (he.lt_size ha), he.node?]
    · obtain ⟨i, rfl⟩ := Nat.exists_eq_add_of_le ha
      rw [he.move_size, node?_append_right, node?_append_right, Option.map_map]
      refine congrArg (Option.map · (k.node? i)) (funext fun n => ?_)
      rw [Function.comp_apply, Node.mapLinks_mapLinks]
      exact congrArg n.mapLinks (funext fun j => (he.move_size j).symm)

end Embeds

variable {g j k : Graph}

/-- The nodes of a closed graph stay what they are if its numbers do. -/
theorem map_mapLinks_node? (hg : g.Closed) {move move' : NodeId → NodeId}
    (h : ∀ b, b < g.size → move b = move' b) (a : NodeId) :
    (g.node? a).map (·.mapLinks move) = (g.node? a).map (·.mapLinks move') := by
  cases hn : g.node? a with
  | none => rfl
  | some n =>
    refine congrArg some (Node.mapLinks_congr fun site b hb => h b ?_)
    exact closed_iff_linkAt?.1 hg a n site b hn hb

theorem map_mapLinks_node?_eq_self (hg : g.Closed) {move : NodeId → NodeId}
    (h : ∀ b, b < g.size → move b = b) (a : NodeId) :
    (g.node? a).map (·.mapLinks move) = g.node? a := by
  have hfixed : ∀ b, b < g.size → move b = id b := h
  simpa [Node.mapLinks_id] using map_mapLinks_node? hg hfixed a

/-- **A graph embeds in itself with another one at its side.** -/
theorem embeds_append (hg : g.Closed) (k : Graph) : Embeds (gap g.size k.size) g (g.append k) where
  injective := gap_injective _ _
  move_size i := by
    rw [size_append, gap, if_neg (Nat.not_lt.2 (Nat.le_add_right _ _)), Nat.add_right_comm]
  node? a := by
    have hfixed : ∀ b, b < g.size → gap g.size k.size b = b := fun b hb => gap_before hb
    rw [map_mapLinks_node?_eq_self hg hfixed]
    rcases Nat.lt_or_ge a g.size with ha | ha
    · rw [hfixed a ha, node?_append_left ha]
    · have hmoved : gap g.size k.size a = a + k.size := if_neg (Nat.not_lt.2 ha)
      rw [hmoved, node?_of_size_le ha, node?_of_size_le]
      rw [size_append]
      exact Nat.add_le_add_right ha _

/-- The nodes of a graph that is added to another. -/
theorem map_mapLinks_append_right (hk : k.Closed) {move : NodeId → NodeId} {start : NodeId}
    (h : ∀ b, b < k.size → move (g.size + b) = start + b) (i : NodeId) :
    ((g.append k).node? (g.size + i)).map (·.mapLinks move) =
      (k.node? i).map (·.mapLinks (start + ·)) := by
  rw [node?_append_right, Option.map_map, ← map_mapLinks_node? hk h]
  exact congrArg (Option.map · (k.node? i)) (funext fun n => n.mapLinks_mapLinks _ _)

/-- **Two graphs can be added to a third in either order.** -/
theorem embeds_swap (hg : g.Closed) (hj : j.Closed) (hk : k.Closed) :
    Embeds (exchange g.size j.size k.size) ((g.append j).append k) ((g.append k).append j) where
  injective := exchange_injective _ _ _
  move_size i := by
    rw [size_append, size_append, size_append, size_append, exchange_after]
  node? a := by
    have hj' : (g.append j).size = g.size + j.size := size_append g j
    have hk' : (g.append k).size = g.size + k.size := size_append g k
    rcases Nat.lt_or_ge a (g.append j).size with ha | ha
    · rw [node?_append_left ha]
      rcases Nat.lt_or_ge a g.size with hg' | hg'
      · rw [exchange_before hg', node?_append_left (hk' ▸ Nat.lt_add_right _ hg'),
          node?_append_left hg', node?_append_left hg',
          map_mapLinks_node?_eq_self hg fun b hb => exchange_before hb]
      · -- a node of the first graph comes after those of the second
        obtain ⟨i, rfl⟩ := Nat.exists_eq_add_of_le hg'
        rw [hj'] at ha
        rw [exchange_first (Nat.lt_of_add_lt_add_left ha), ← hk', node?_append_right,
          map_mapLinks_append_right hj fun b hb => hk' ▸ exchange_first hb]
    · obtain ⟨i, rfl⟩ := Nat.exists_eq_add_of_le ha
      rcases Nat.lt_or_ge i k.size with hi | hi
      · -- a node of the second graph comes first
        have hmoved : ∀ b, b < k.size →
            exchange g.size j.size k.size ((g.append j).size + b) = g.size + b :=
          fun b hb => hj' ▸ exchange_second hb
        rw [hmoved i hi, node?_append_left (hk' ▸ Nat.add_lt_add_left hi _), node?_append_right,
          map_mapLinks_append_right hk hmoved]
      · obtain ⟨l, rfl⟩ := Nat.exists_eq_add_of_le hi
        rw [hj', ← Nat.add_assoc, exchange_after, node?_of_size_le, node?_of_size_le,
          Option.map_none]
        · rw [size_append, hj']
          exact Nat.le_add_right _ _
        · rw [size_append, hk']
          exact Nat.le_add_right _ _

end Graph
end Schema
end Marshal
