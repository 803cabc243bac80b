import Marshal.Schema.Graph

/-!
# What can be reached from a node

The walk `Graph.reach` looks at one position of its list after the other and notes what it finds
there at the end of the list.  Everything rests on two facts about one round: the list only grows
at its end, and after the round the targets of the node at the position are in it.  Since no node
is noted twice, the rounds pass the end of the list before they pass the number of nodes.

## Main definitions

* `Graph.Reaches` — the nodes that can be reached, as the least set closed under links.
* `Graph.Closed` — every link refers to a node of the graph.
* `Graph.rounds` — the list after some rounds.

## Main results

* `mem_reach_iff` — the walk notes exactly the nodes that can be reached.
* `nodup_reach`, `length_reach_le` — it notes each of them once.
* `rounds_map` — the walk follows a renumbering of the nodes.
-/

namespace Marshal
namespace Schema
namespace Graph

/-- The nodes that can be reached from a node. -/
inductive Reaches (g : Graph) (root : NodeId) : NodeId → Prop
  /-- The node itself. -/
  | refl : Reaches g root root
  /-- What a node that can be reached refers to. -/
  | step {a b : NodeId} : Reaches g root a → b ∈ g.targets a → Reaches g root b

/-- Every link refers to a node of the graph. -/
def Closed (g : Graph) : Prop := ∀ a b, b ∈ g.targets a → b < g.size

theorem targets_eq {g : Graph} {a : NodeId} {n : Node} (h : g.node? a = some n) :
    g.targets a = n.sites.filterMap (·.2) := by
  simp only [targets, h]

theorem closed_iff {g : Graph} :
    g.Closed ↔ ∀ n ∈ g.nodes, ∀ s ∈ n.sites, ∀ b ∈ s.2, b < g.size := by
  constructor
  · intro hg n hn s hs b hb
    obtain ⟨a, ha⟩ := List.mem_iff_getElem?.1 hn
    refine hg a b ?_
    rw [targets_eq ha, List.mem_filterMap]
    exact ⟨s, hs, hb⟩
  · intro h a b hb
    cases hn : g.node? a with
    | none => simp [targets, hn] at hb
    | some n =>
      rw [targets_eq hn, List.mem_filterMap] at hb
      obtain ⟨s, hs, hb⟩ := hb
      exact h n (List.mem_of_getElem? hn) s hs b hb

instance (g : Graph) : Decidable g.Closed := decidable_of_iff _ closed_iff.symm

theorem Reaches.lt_size {g : Graph} (hg : g.Closed) {root a : NodeId} (hroot : root < g.size)
    (h : g.Reaches root a) : a < g.size := by
  induction h with
  | refl => exact hroot
  | step _ hb _ => exact hg _ _ hb

theorem node?_eq_some_of_lt {g : Graph} {a : NodeId} (h : a < g.size) :
    ∃ n, g.node? a = some n :=
  ⟨_, List.getElem?_eq_getElem h⟩

theorem lt_size_of_node? {g : Graph} {a : NodeId} {n : Node} (h : g.node? a = some n) :
    a < g.size :=
  (List.getElem?_eq_some_iff.1 h).1

/-! ### Noting nodes -/

@[simp] theorem mem_note {order : List NodeId} {a x : NodeId} :
    x ∈ note order a ↔ x ∈ order ∨ x = a := by
  unfold note
  split
  · next h =>
    constructor
    · exact Or.inl
    · rintro (hx | rfl)
      · exact hx
      · exact h
  · simp

theorem nodup_note {order : List NodeId} (h : order.Nodup) (a : NodeId) :
    (note order a).Nodup := by
  unfold note
  split
  · exact h
  · next ha =>
    rw [List.nodup_append]
    refine ⟨h, by simp, ?_⟩
    intro x hx y hy hxy
    rw [List.mem_singleton] at hy
    exact ha (hy ▸ hxy ▸ hx)

theorem prefix_note (order : List NodeId) (a : NodeId) : order <+: note order a := by
  unfold note
  split
  · exact List.prefix_rfl
  · exact List.prefix_append _ _

@[simp] theorem mem_foldl_note (ids : List NodeId) {order : List NodeId} {x : NodeId} :
    x ∈ ids.foldl note order ↔ x ∈ order ∨ x ∈ ids := by
  induction ids generalizing order with
  | nil => simp
  | cons a ids ih => simp [ih, or_assoc]

theorem nodup_foldl_note (ids : List NodeId) {order : List NodeId} (h : order.Nodup) :
    (ids.foldl note order).Nodup := by
  induction ids generalizing order with
  | nil => exact h
  | cons a ids ih => exact ih (nodup_note h a)

theorem prefix_foldl_note (ids order : List NodeId) : order <+: ids.foldl note order := by
  induction ids generalizing order with
  | nil => exact List.prefix_rfl
  | cons a ids ih => exact (prefix_note order a).trans (ih _)

theorem getElem?_mono {l m : List NodeId} (h : l <+: m) {i : Nat} {a : NodeId}
    (ha : l[i]? = some a) : m[i]? = some a := by
  obtain ⟨t, rfl⟩ := h
  rw [List.getElem?_append_left (List.getElem?_eq_some_iff.1 ha).1, ha]

/-! ### One round -/

theorem explore_eq (g : Graph) {order : List NodeId} {i : Nat} {a : NodeId}
    (h : order[i]? = some a) : g.explore order i = (g.targets a).foldl note order := by
  simp only [explore, h]

theorem explore_of_length_le (g : Graph) {order : List NodeId} {i : Nat}
    (h : order.length ≤ i) : g.explore order i = order := by
  simp only [explore, List.getElem?_eq_none h]

theorem prefix_explore (g : Graph) (order : List NodeId) (i : Nat) :
    order <+: g.explore order i := by
  cases h : order[i]? with
  | none =>
    have hsame : g.explore order i = order :=
      explore_of_length_le g (List.getElem?_eq_none_iff.1 h)
    exact ⟨[], (List.append_nil order).trans hsame.symm⟩
  | some a => rw [explore_eq g h]; exact prefix_foldl_note _ _

/-! ### All rounds -/

/-- What has been noted after some rounds. -/
def rounds (g : Graph) (root : NodeId) (n : Nat) : List NodeId :=
  (List.range n).foldl g.explore [root]

@[simp] theorem rounds_zero (g : Graph) (root : NodeId) : g.rounds root 0 = [root] := rfl

theorem rounds_succ (g : Graph) (root : NodeId) (n : Nat) :
    g.rounds root (n + 1) = g.explore (g.rounds root n) n := by
  simp only [rounds, List.range_succ, List.foldl_append, List.foldl_cons, List.foldl_nil]

theorem reach_eq_rounds (g : Graph) (root : NodeId) : g.reach root = g.rounds root g.size := rfl

variable {g : Graph} {root : NodeId}

theorem rounds_mono {m n : Nat} (h : m ≤ n) : g.rounds root m <+: g.rounds root n := by
  induction n with
  | zero =>
    obtain rfl := Nat.le_zero.1 h
    exact List.prefix_rfl
  | succ n ih =>
    rcases Nat.lt_or_eq_of_le h with h | rfl
    · rw [rounds_succ]
      exact (ih (Nat.le_of_lt_succ h)).trans (prefix_explore g _ n)
    · exact List.prefix_rfl

theorem nodup_rounds (n : Nat) : (g.rounds root n).Nodup := by
  induction n with
  | zero => simp
  | succ n ih =>
    rw [rounds_succ]
    cases h : (g.rounds root n)[n]? with
    | none => rw [explore_of_length_le g (List.getElem?_eq_none_iff.1 h)]; exact ih
    | some a => rw [explore_eq g h]; exact nodup_foldl_note _ ih

theorem reaches_of_mem_rounds {n : Nat} {x : NodeId} (hx : x ∈ g.rounds root n) :
    g.Reaches root x := by
  induction n generalizing x with
  | zero =>
    rw [rounds_zero, List.mem_singleton] at hx
    exact hx ▸ .refl
  | succ n ih =>
    rw [rounds_succ] at hx
    cases h : (g.rounds root n)[n]? with
    | none =>
      rw [explore_of_length_le g (List.getElem?_eq_none_iff.1 h)] at hx
      exact ih hx
    | some a =>
      rw [explore_eq g h, mem_foldl_note] at hx
      rcases hx with hx | hx
      · exact ih hx
      · exact .step (ih (List.mem_of_getElem? h)) hx

/-- After some rounds, the targets of all nodes looked at have been noted. -/
theorem targets_subset_rounds {n i : Nat} {a x : NodeId} (hi : i < n)
    (ha : (g.rounds root n)[i]? = some a) (hx : x ∈ g.targets a) : x ∈ g.rounds root n := by
  induction n with
  | zero => exact absurd hi (Nat.not_lt_zero i)
  | succ n ih =>
    have hpre : g.rounds root n <+: g.rounds root (n + 1) := rounds_mono (Nat.le_succ n)
    cases hn : (g.rounds root n)[i]? with
    | some b =>
      -- the node at the position was there before the round
      have hb : (g.rounds root (n + 1))[i]? = some b := getElem?_mono hpre hn
      rw [ha] at hb
      obtain rfl := Option.some.inj hb
      rcases Nat.lt_or_eq_of_le (Nat.le_of_lt_succ hi) with h | rfl
      · exact hpre.subset (ih h hn)
      · rw [rounds_succ, explore_eq g hn, mem_foldl_note]
        exact Or.inr hx
    | none =>
      -- a round that passes the end of the list adds nothing
      have hle : (g.rounds root n).length ≤ i := List.getElem?_eq_none_iff.1 hn
      rw [rounds_succ, explore_of_length_le g (by omega), hn] at ha
      exact absurd ha (by simp)

theorem rounds_of_length_le {m n : Nat} (h : (g.rounds root m).length ≤ m) (hmn : m ≤ n) :
    g.rounds root n = g.rounds root m := by
  induction n with
  | zero => rw [Nat.le_zero.1 hmn]
  | succ n ih =>
    rcases Nat.lt_or_eq_of_le hmn with hlt | rfl
    · have he := ih (Nat.le_of_lt_succ hlt)
      rw [rounds_succ, he, explore_of_length_le g (by omega)]
    · rfl

/-! ### The walk -/

theorem nodup_reach : (g.reach root).Nodup := nodup_rounds g.size

theorem reaches_of_mem_reach {x : NodeId} (h : x ∈ g.reach root) : g.Reaches root x :=
  reaches_of_mem_rounds h

theorem getElem?_zero_rounds (n : Nat) : (g.rounds root n)[0]? = some root :=
  getElem?_mono (rounds_mono (Nat.zero_le n)) rfl

theorem getElem?_zero_reach : (g.reach root)[0]? = some root := getElem?_zero_rounds g.size

variable (hg : g.Closed) (hroot : root < g.size)

include hg hroot

theorem length_rounds_le (n : Nat) : (g.rounds root n).length ≤ g.size := by
  have hsub : g.rounds root n ⊆ List.range g.size := fun x hx =>
    List.mem_range.2 ((reaches_of_mem_rounds hx).lt_size hg hroot)
  simpa using List.Nodup.length_le_of_subset (nodup_rounds n) hsub

theorem length_reach_le : (g.reach root).length ≤ g.size := length_rounds_le hg hroot g.size

/-- **The walk notes exactly the nodes that can be reached.** -/
theorem mem_reach_iff {x : NodeId} : x ∈ g.reach root ↔ g.Reaches root x := by
  refine ⟨reaches_of_mem_reach, fun h => ?_⟩
  induction h with
  | refl => exact List.mem_of_getElem? getElem?_zero_reach
  | step _ hb ih =>
    -- the list is no longer than the graph, so its position comes before the rounds are over
    obtain ⟨i, hi, hget⟩ := List.getElem_of_mem ih
    have hlt : i < g.size := Nat.lt_of_lt_of_le hi (length_reach_le hg hroot)
    exact targets_subset_rounds hlt (List.getElem?_eq_some_iff.2 ⟨hi, hget⟩) hb

omit hroot hg in
/-- After as many rounds as nodes are found, there is nothing left to find. -/
theorem rounds_length_reach (hle : (g.reach root).length ≤ g.size) :
    g.rounds root (g.reach root).length = g.reach root := by
  have hpre : g.rounds root (g.reach root).length <+: g.reach root := rounds_mono hle
  exact (rounds_of_length_le hpre.length_le hle).symm

omit hroot hg

/-! ### Renumbering -/

theorem note_map {number : NodeId → NodeId} {order : List NodeId} {a : NodeId}
    (hinj : ∀ x ∈ order, number x = number a → x = a) :
    note (order.map number) (number a) = (note order a).map number := by
  unfold note
  by_cases h : a ∈ order
  · rw [if_pos h, if_pos (List.mem_map_of_mem h)]
  · rw [if_neg h, if_neg, List.map_append, List.map_singleton]
    intro hc
    obtain ⟨x, hx, hxa⟩ := List.mem_map.1 hc
    exact h (hinj x hx hxa ▸ hx)

theorem foldl_note_map {number : NodeId → NodeId} {S : NodeId → Prop}
    (hinj : ∀ x y, S x → S y → number x = number y → x = y) {ids order : List NodeId}
    (hids : ∀ x ∈ ids, S x) (horder : ∀ x ∈ order, S x) :
    (ids.map number).foldl note (order.map number) = (ids.foldl note order).map number := by
  induction ids generalizing order with
  | nil => rfl
  | cons a ids ih =>
    have ha : S a := hids a List.mem_cons_self
    rw [List.map_cons, List.foldl_cons, List.foldl_cons,
      note_map fun x hx => hinj x a (horder x hx) ha]
    refine ih (fun x hx => hids x (List.mem_cons_of_mem _ hx)) fun x hx => ?_
    rcases mem_note.1 hx with hx | rfl
    · exact horder x hx
    · exact ha

/-- The rounds follow a renumbering of what can be reached. -/
theorem rounds_map {h : Graph} {number : NodeId → NodeId}
    (hinj : ∀ a b, g.Reaches root a → g.Reaches root b → number a = number b → a = b)
    (ht : ∀ a, g.Reaches root a → h.targets (number a) = (g.targets a).map number) (n : Nat) :
    h.rounds (number root) n = (g.rounds root n).map number := by
  induction n with
  | zero => rfl
  | succ n ih =>
    rw [rounds_succ, rounds_succ, ih]
    cases ha : (g.rounds root n)[n]? with
    | none =>
      have hle := List.getElem?_eq_none_iff.1 ha
      rw [explore_of_length_le g hle, explore_of_length_le h (by simpa using hle)]
    | some a =>
      -- both walks look at the same position, and what they note there corresponds
      have hra : g.Reaches root a := reaches_of_mem_rounds (List.mem_of_getElem? ha)
      have hna : ((g.rounds root n).map number)[n]? = some (number a) := by
        rw [List.getElem?_map, ha, Option.map_some]
      rw [explore_eq g ha, explore_eq h hna, ht a hra]
      exact foldl_note_map hinj (fun x hx => .step hra hx) fun x hx => reaches_of_mem_rounds hx

end Graph
end Schema
end Marshal
