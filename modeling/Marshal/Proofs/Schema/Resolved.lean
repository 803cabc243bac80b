import Marshal.Proofs.Schema.Fresh
import Marshal.Proofs.Schema.Merged

/-!
# Which references are resolved

Linking a store goes through its trees.  An open reference of a node that is in a tree is resolved
exactly if its spelling, with or without one leading `::`, is a name of the store and is not empty.
A node that is only known by name is in no tree; other nodes are linked to it, but its own
references stay as they are.

## Main results

* `Names.isSome_resolve?` — which spellings stand for something.
* `linkAt?_link_store` — what the sites of a node hold once its store is linked.
* `resolved_of_mem_tree` — references of nodes in trees are resolved.
-/

namespace Marshal
namespace Schema

/-- **A spelling stands for something** exactly if it is not empty and it is a name, as it is or
without one leading `::`. -/
theorem Names.isSome_resolve? {names : Names} {spelling : String} :
    (names.resolve? spelling).isSome ↔
      spelling ≠ "" ∧ ∃ key, (key = spelling ∨ withoutGlobal? spelling = some key) ∧
        (names.get? key).isSome := by
  unfold resolve?
  by_cases hempty : spelling = ""
  · simp [hempty]
  · rw [if_neg hempty]
    simp only [ne_eq, hempty, not_false_eq_true, true_and, or_and_right, exists_or, exists_eq_left]
    cases names.get? spelling with
    | some id => simp
    | none => cases withoutGlobal? spelling <;> simp

/-- **What the sites of a node hold once its store is linked**: what they held, or else, if the node
is in a tree, what the spelling stands for. -/
theorem linkAt?_link_store (s : Store) {id : NodeId} {n : Node} (hn : s.graph.node? id = some n) :
    ∃ m, s.link.1.graph.node? id = some m ∧ m.unlinked = n.unlinked ∧
      ∀ site, m.linkAt? site = (n.linkAt? site).map fun l =>
        l <|> if ∃ t ∈ s.trees, id ∈ t.ids then (n.spelling? site).bind s.names.resolve?
          else none := by
  rw [node?_link_store, hn, Option.map_some]
  refine ⟨_, rfl, ?_, fun site => ?_⟩
  · split <;> simp
  · split
    · exact Node.linkAt?_link s.names n site
    · cases n.linkAt? site with
      | none => rfl
      | some l => cases l <;> rfl

/-- **References of nodes in trees are resolved.**  Let a name of a store stand for a node that is
in a tree, and let a reference of this node be open and its spelling not be empty.  If the spelling is
a name of the store, as it is or without one leading `::`, then once the store is linked the
reference holds what the spelling stands for; the node is otherwise what it was, and the names are
the same. -/
theorem resolved_of_mem_tree (s : Store) {name : String} {id : NodeId}
    (hname : s.names.get? name = some id) {n : Node} (hn : s.graph.node? id = some n)
    (htree : ∃ t ∈ s.trees, id ∈ t.ids) (site : Site) {spelling : String}
    (hspelling : n.spelling? site = some spelling) (hopen : n.linkAt? site = some none)
    (hempty : spelling ≠ "")
    (hkey : ∃ key, (key = spelling ∨ Names.withoutGlobal? spelling = some key) ∧
      (s.names.get? key).isSome) :
    ∃ m target, s.link.1.names.get? name = some id ∧ s.link.1.graph.node? id = some m ∧
      m.unlinked = n.unlinked ∧ m.linkAt? site = some (some target) ∧
      s.names.resolve? spelling = some target := by
  obtain ⟨target, htarget⟩ := Option.isSome_iff_exists.1 (Names.isSome_resolve?.2 ⟨hempty, hkey⟩)
  obtain ⟨m, hm, hsame, hsites⟩ := linkAt?_link_store s hn
  refine ⟨m, target, hname, hm, hsame, ?_, htarget⟩
  rw [hsites, hopen, if_pos htree, hspelling, Option.map_some, Option.bind_some, htarget]
  rfl

/-- A file with a type that is only known by name, and a type whose base has the empty name. -/
def withHelper : Analysis :=
  let slot : Field := ⟨"slot", "", .object, "::Slot", .anyone, none⟩
  let item : Field := ⟨"item", "", .object, "Item", .anyone, none⟩
  .ofNodes ⟨"box.h"⟩
    [⟨"Item", .all, [], [], []⟩, ⟨"", .all, [], [], []⟩,
      ⟨"Box", .all, [], [slot, { item with kind := .vector item }], [⟨"", none⟩]⟩]
    [⟨"Slot", .pod, [], [item], []⟩]

theorem resolved_of_mem_tree_withHelper :
    let s := mergeAll [withHelper]
    s.names.get? "Box" = some 2 ∧ (∃ t ∈ s.trees, 2 ∈ t.ids) ∧
      ∃ m, s.link.1.graph.node? 2 = some m ∧ m.linkAt? (.field [0]) = some (some 3) ∧
        m.linkAt? (.field [1, 0]) = some (some 0) := by
  intro s
  have hname : s.names.get? "Box" = some 2 := by decide
  have htree : ∃ t ∈ s.trees, 2 ∈ t.ids := ⟨⟨⟨"box.h"⟩, [0, 1, 2]⟩, List.mem_cons_self, by decide⟩
  obtain ⟨m, slot, -, hm, -, hslot, hslotName⟩ := resolved_of_mem_tree s hname rfl htree
    (.field [0]) rfl rfl (by decide) ⟨"Slot", .inr (by decide), by decide⟩
  obtain ⟨m', item, -, hm', -, hitem, hitemName⟩ := resolved_of_mem_tree s hname rfl htree
    (.field [1, 0]) rfl rfl (by decide) ⟨"Item", .inl rfl, by decide⟩
  have hsame : m' = m := Option.some.inj (hm'.symm.trans hm)
  have hslotId : slot = 3 := Option.some.inj (hslotName.symm.trans (by decide))
  have hitemId : item = 0 := Option.some.inj (hitemName.symm.trans (by decide))
  exact ⟨hname, htree, m, hm, hslotId ▸ hslot, by rw [← hsame, hitem, hitemId]⟩

/-- The references of a node that is in no tree stay open, and so does one with the empty name. -/
theorem open_withHelper :
    let s := mergeAll [withHelper]
    (s.names.get? "Slot" = some 3 ∧ s.names.get? "Item" = some 0 ∧
      ∃ n m, s.graph.node? 3 = some n ∧ n.spelling? (.field [0]) = some "Item" ∧
        s.link.1.graph.node? 3 = some m ∧ m.linkAt? (.field [0]) = some none) ∧
    s.names.get? "Box" = some 2 ∧ s.names.get? "" = some 1 ∧
      ∃ n m, s.graph.node? 2 = some n ∧ n.spelling? (.base 0) = some "" ∧
        s.link.1.graph.node? 2 = some m ∧ m.linkAt? (.base 0) = some none := by
  exact ⟨⟨by decide, by decide, _, _, rfl, rfl, rfl, rfl⟩, by decide, by decide, _, _, rfl, rfl, rfl,
    rfl⟩

end Schema
end Marshal
