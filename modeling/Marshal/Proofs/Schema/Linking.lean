import Marshal.Data.Lookup
import Marshal.Proofs.Schema.Replay
import Marshal.Schema.Link

/-!
# What linking does

Linking a node gives every open reference the node that its spelling stands for, and changes
nothing else.  Doing it a second time changes nothing more, so in a graph it does not matter how
often, or in which order, the nodes of a list are linked.

## Main definitions

* `Node.spelling?` — how the reference at a site is spelled.

## Main results

* `Names.get?_merge` — what a name stands for once names are merged.
* `Node.linkAt?_link` — what the sites of a linked node hold.
* `Graph.node?_link` — what becomes of the nodes of a graph.
-/

namespace Marshal
namespace Schema

/-! ### Names -/

namespace Names

variable {m other : Names} {name : String}

theorem get?_define (m : Names) (key : String) (id : NodeId) (name : String) :
    (m.define key id).get? name = if name = key then some id else m.get? name :=
  Data.lookup_cons_filter m.entries key id name

/-- **Once names are merged, a name stands for what the names merged last say**, and only if they
do not know it, for what it stood for before. -/
theorem get?_merge (m other : Names) (name : String) :
    (m.merge other).get? name = (other.get? name <|> m.get? name) := by
  obtain ⟨entries⟩ := other
  induction entries with
  | nil => rfl
  | cons e entries ih =>
    obtain ⟨key, id⟩ := e
    have hmerge : m.merge ⟨(key, id) :: entries⟩ = (m.merge ⟨entries⟩).define key id := rfl
    rw [hmerge, get?_define, ih]
    by_cases h : name = key
    · simp [get?, h]
    · have hne : (name == key) = false := by simpa using h
      simp only [get?, List.lookup_cons, hne, if_neg h]

@[simp] theorem get?_mapIds (m : Names) (change : NodeId → NodeId) (name : String) :
    (m.mapIds change).get? name = (m.get? name).map change := by
  obtain ⟨entries⟩ := m
  induction entries with
  | nil => rfl
  | cons e entries ih =>
    obtain ⟨key, id⟩ := e
    simp only [get?, mapIds, List.map_cons, List.lookup_cons] at ih ⊢
    cases name == key with
    | true => rfl
    | false => exact ih

end Names

/-! ### Nodes -/

namespace Field

theorem link_resolve (names : Names) (f : Field) :
    (f.resolve names).link =
      (f.link <|> if f.kind.isRecord then names.resolve? f.typeName else none) := by
  unfold resolve isOpen
  cases hl : f.link with
  | some a => simp [hl]
  | none => cases f.kind.isRecord <;> simp [hl]

/-- Linking a field changes nothing but its link. -/
theorem resolve_mk (names : Names) (n m : String) (k : Kind Field) (t : String) (a : Access)
    (l : Option NodeId) :
    resolve names ⟨n, m, k, t, a, l⟩ = ⟨n, m, k, t, a, (resolve names ⟨n, m, k, t, a, l⟩).link⟩ := by
  unfold resolve
  split <;> rfl

theorem unlinked_mapAll_resolve (names : Names) (f : Field) :
    (f.mapAll (resolve names)).unlinked = f.unlinked := by
  induction f using Field.childInduction with
  | step f ih =>
    obtain ⟨n, m, k, t, a, l⟩ := f
    rw [mapAll, resolve_mk]
    simp only [unlinked] at ih
    cases k <;> simp_all [unlinked, mapAll, mapInside, Kind.children]

end Field

namespace Node

/-- How the reference at a site is spelled; nothing if there is no reference. -/
def spelling? (n : Node) : Site → Option String
  | .base i => n.bases[i]?.map (·.name)
  | .field path =>
      (n.fieldAt? path).bind fun f => if f.kind.isRecord then some f.typeName else none

/-- **A linked node holds at each site what it held before, or else what the spelling stands
for.** -/
theorem linkAt?_link (names : Names) (n : Node) (site : Site) :
    (n.link names).linkAt? site =
      (n.linkAt? site).map fun l => l <|> (n.spelling? site).bind names.resolve? := by
  cases site with
  | base i =>
    simp only [linkAt?, spelling?, link, List.getElem?_map]
    cases n.bases[i]? with
    | none => rfl
    | some b =>
      obtain ⟨name, l⟩ := b
      cases l <;> rfl
  | field path =>
    cases path with
    | nil => rfl
    | cons i path =>
      simp only [linkAt?, spelling?, fieldAt?, link, List.getElem?_map]
      cases n.fields[i]? with
      | none => rfl
      | some f =>
        simp only [Option.map_some, Option.bind_some, Field.at?_mapAll, Option.map_map]
        cases f.at? path with
        | none => rfl
        | some e =>
          simp only [Option.map_some, Function.comp, Field.link_mapAll, Field.link_resolve,
            Option.bind_some]
          cases e.kind.isRecord <;> rfl

@[simp] theorem unlinked_link (names : Names) (n : Node) : (n.link names).unlinked = n.unlinked := by
  unfold unlinked link
  simp only [List.map_map]
  congr 1
  · exact List.map_congr_left fun f _ => Field.unlinked_mapAll_resolve names f
  · refine List.map_congr_left fun b _ => ?_
    obtain ⟨name, l⟩ := b
    cases l <;> rfl

/-- How references are spelled does not depend on what they are linked to. -/
theorem spelling?_unlinked (n : Node) (site : Site) : n.unlinked.spelling? site = n.spelling? site := by
  cases site with
  | base i => simp [spelling?, unlinked, Function.comp_def]
  | field path =>
    cases path with
    | nil => rfl
    | cons i path =>
      simp only [spelling?, fieldAt?, unlinked, List.getElem?_map]
      cases n.fields[i]? with
      | none => rfl
      | some f =>
        simp only [Option.map_some, Option.bind_some, Field.unlinked, Field.at?_mapAll]
        cases f.at? path with
        | none => rfl
        | some e =>
          obtain ⟨n, m, k, t, a, l⟩ := e
          cases k <;> rfl

theorem spelling?_eq_of_unlinked {n m : Node} (h : n.unlinked = m.unlinked) (site : Site) :
    n.spelling? site = m.spelling? site := by
  rw [← spelling?_unlinked, h, spelling?_unlinked]

/-- **Linking a second time changes nothing.** -/
theorem link_link (names : Names) (n : Node) : (n.link names).link names = n.link names := by
  refine eq_of_unlinked_of_linkAt? (unlinked_link names _) fun site => ?_
  rw [linkAt?_link, spelling?_eq_of_unlinked (unlinked_link names n), linkAt?_link, Option.map_map]
  congr 1
  funext l
  cases l <;> cases (n.spelling? site).bind names.resolve? <;> rfl

end Node

/-! ### Graphs -/

namespace Graph

theorem node?_linkNode (names : Names) (g : Graph) (id a : NodeId) :
    (g.linkNode names id).1.node? a =
      (g.node? a).map fun n => if a = id then n.link names else n := by
  unfold linkNode
  cases hn : g.node? id with
  | none =>
    by_cases h : a = id
    · simp [h, hn]
    · simp [h]
  | some n =>
    simp only
    rw [node?_set _ _ _ _ (lt_size_of_node? hn)]
    by_cases h : a = id
    · simp [h, hn]
    · simp [h]

/-- Linking nodes one after the other, with what has been reported so far. -/
theorem foldl_linkNode_fst (names : Names) (ids : List NodeId) (g : Graph) (r : LinkReport) :
    (ids.foldl (fun (g, report) id =>
      let (g, r) := g.linkNode names id
      (g, LinkReport.append report r)) (g, r)).1 =
      ids.foldl (fun g id => (g.linkNode names id).1) g := by
  induction ids generalizing g r with
  | nil => rfl
  | cons id ids ih => exact ih _ _

/-- **Of a graph, exactly the nodes of the list are linked**, however often it names them. -/
theorem node?_link (names : Names) (g : Graph) (ids : List NodeId) (a : NodeId) :
    (g.link names ids).1.node? a =
      (g.node? a).map fun n => if a ∈ ids then n.link names else n := by
  unfold link
  rw [foldl_linkNode_fst]
  induction ids generalizing g with
  | nil => simp
  | cons id ids ih =>
    rw [List.foldl_cons, ih, node?_linkNode, Option.map_map]
    congr 1
    funext n
    by_cases h : a = id <;> by_cases hids : a ∈ ids <;> simp [h, hids, Node.link_link]

@[simp] theorem size_link (names : Names) (g : Graph) (ids : List NodeId) :
    (g.link names ids).1.size = g.size := by
  have hnode : ∀ a, (g.link names ids).1.node? a = none ↔ g.node? a = none := fun a => by
    rw [node?_link, Option.map_eq_none_iff]
  simp only [node?, List.getElem?_eq_none_iff] at hnode
  exact Nat.le_antisymm ((hnode _).2 (Nat.le_refl _)) ((hnode _).1 (Nat.le_refl _))

end Graph
end Schema
end Marshal
