import Marshal.Proofs.Schema.Reach
import Marshal.Proofs.Schema.Sites
import Marshal.Schema.Bundle

/-!
# Replaying links

Restoring a bundle sets one link after the other.  A step changes what one site holds; so a run
over a table of links leaves every site with what it held before, or else with the target of the
first link that names it.

## Main definitions

* `Graph.linkAt?` — what a site of a node of a graph holds.
* `Graph.unlinked` — the descriptions of all nodes.
* `Graph.eq_of_unlinked_of_linkAt?` — a graph is its descriptions and its links.

## Main results

* `setLink_eq_ok` — one link, when it can be set and what it changes.
* `replay_eq_ok` — a table of links.
-/

namespace Marshal
namespace Schema

namespace Graph

/-- What a site of a node holds; nothing if there is no such site. -/
def linkAt? (g : Graph) (a : NodeId) (site : Site) : Option (Option NodeId) :=
  (g.node? a).bind (·.linkAt? site)

/-- The descriptions of all nodes. -/
def unlinked (g : Graph) : Graph := ⟨g.nodes.map Node.unlinked⟩

theorem linkAt?_eq {g : Graph} {a : NodeId} {n : Node} (h : g.node? a = some n) (site : Site) :
    g.linkAt? a site = n.linkAt? site := by
  rw [linkAt?, h, Option.bind_some]

theorem linkAt?_of_size_le {g : Graph} {a : NodeId} (h : g.size ≤ a) (site : Site) :
    g.linkAt? a site = none := by
  rw [linkAt?, node?, List.getElem?_eq_none h, Option.bind_none]

theorem node?_set (g : Graph) (a : NodeId) (n : Node) (b : NodeId) (ha : a < g.size) :
    (g.set a n).node? b = if b = a then some n else g.node? b := by
  unfold node? set
  by_cases h : b = a
  · subst h
    rw [if_pos rfl]
    exact List.getElem?_set_self ha
  · rw [if_neg h]
    exact List.getElem?_set_ne (Ne.symm h)

/-- **A graph is its descriptions and its links.** -/
theorem eq_of_unlinked_of_linkAt? {g h : Graph} (hu : g.unlinked = h.unlinked)
    (hl : ∀ a site, g.linkAt? a site = h.linkAt? a site) : g = h := by
  obtain ⟨ns⟩ := g
  obtain ⟨ms⟩ := h
  refine congrArg Graph.mk (eq_of_map_eq (Graph.mk.inj hu) fun a n m hn hm hnm => ?_)
  refine Node.eq_of_unlinked_of_linkAt? hnm fun site => ?_
  have := hl a site
  rwa [linkAt?_eq (g := ⟨ns⟩) hn, linkAt?_eq (g := ⟨ms⟩) hm] at this

end Graph

namespace Bundle

open Schema.Graph

/-! ### One link -/

/-- Whether both ends of a link are there, between nodes whose numbers start at `offset`. -/
def Fits (offset count : Nat) (g : Graph) (l : BundleLink) : Prop :=
  l.target < count ∧ l.holder < count ∧ g.linkAt? (offset + l.holder) l.site ≠ none

/-- **A link that fits can be set**, and its site then holds it, unless it held one before. -/
theorem setLink_eq_ok {offset count : Nat} {g : Graph} {l : BundleLink}
    (h : Fits offset count g l) :
    ∃ g', setLink offset count g l = .ok g' ∧ g'.unlinked = g.unlinked ∧
      ∀ a site, g'.linkAt? a site =
        if a = offset + l.holder ∧ site = l.site then
          (g.linkAt? a site).map fun k => linkTo k (offset + l.target)
        else g.linkAt? a site := by
  obtain ⟨ht, hh, hs⟩ := h
  cases hn : g.node? (offset + l.holder) with
  | none => exact absurd (by rw [Graph.linkAt?, hn, Option.bind_none]) hs
  | some n =>
    rw [linkAt?_eq hn] at hs
    cases hm : n.linkSite? l.site (offset + l.target) with
    | none => exact absurd (Node.linkSite?_eq_none_iff.1 hm) hs
    | some m =>
      have hlt : offset + l.holder < g.size := lt_size_of_node? hn
      refine ⟨g.set (offset + l.holder) m, ?_, ?_, fun a site => ?_⟩
      · simp only [setLink, ht, hh, and_self, if_true, hn, Option.bind_some, hm]
      · unfold Graph.unlinked Graph.set
        rw [List.map_set, Node.unlinked_linkSite? hm]
        refine congrArg Graph.mk (set_eq_self ?_)
        rw [List.getElem?_map]
        exact congrArg _ hn
      · rw [Graph.linkAt?, node?_set _ _ _ _ hlt]
        by_cases ha : a = offset + l.holder
        · rw [if_pos ha, Option.bind_some, Node.linkAt?_linkSite? hm, ha, linkAt?_eq hn]
          simp
        · rw [if_neg ha, if_neg fun hc => ha hc.1, Graph.linkAt?]

/-! ### A table of links -/

/-- The target that a table of links has for a site. -/
def targetOf? (offset : Nat) (links : List BundleLink) (a : NodeId) (site : Site) :
    Option NodeId :=
  (links.find? fun l => offset + l.holder = a ∧ l.site = site).map (offset + ·.target)

theorem targetOf?_cons (offset : Nat) (l : BundleLink) (links : List BundleLink) (a : NodeId)
    (site : Site) :
    targetOf? offset (l :: links) a site =
      if a = offset + l.holder ∧ site = l.site then some (offset + l.target)
      else targetOf? offset links a site := by
  unfold targetOf?
  rw [List.find?_cons]
  by_cases h : a = offset + l.holder ∧ site = l.site
  · obtain ⟨rfl, rfl⟩ := h
    simp
  · rw [if_neg h]
    have : ¬ (offset + l.holder = a ∧ l.site = site) := fun hc => h ⟨hc.1.symm, hc.2.symm⟩
    simp only [this, decide_false]

/-- **A table of links that fit can be replayed**, and a site then holds what it held before, or
else the target of the first link that names it. -/
theorem replay_eq_ok {offset count : Nat} {links : List BundleLink} {g : Graph}
    (h : ∀ l ∈ links, Fits offset count g l) :
    ∃ g', links.foldlM (setLink offset count) g = .ok g' ∧ g'.unlinked = g.unlinked ∧
      ∀ a site, g'.linkAt? a site =
        (g.linkAt? a site).map fun k => k <|> targetOf? offset links a site := by
  induction links generalizing g with
  | nil =>
    refine ⟨g, rfl, rfl, fun a site => ?_⟩
    simp [targetOf?]
  | cons l links ih =>
    obtain ⟨g₁, hg₁, hu₁, hl₁⟩ := setLink_eq_ok (h l List.mem_cons_self)
    -- setting a link takes no site away, so the links that are left still fit
    have hfit : ∀ k ∈ links, Fits offset count g₁ k := by
      intro k hk
      obtain ⟨ht, hh, hs⟩ := h k (List.mem_cons_of_mem _ hk)
      refine ⟨ht, hh, fun hc => hs ?_⟩
      rw [hl₁] at hc
      split at hc
      · exact Option.map_eq_none_iff.1 hc
      · exact hc
    obtain ⟨g', hg', hu', hl'⟩ := ih hfit
    refine ⟨g', ?_, hu'.trans hu₁, fun a site => ?_⟩
    · rw [List.foldlM_cons, hg₁]
      exact hg'
    · rw [hl', hl₁, targetOf?_cons]
      by_cases hc : a = offset + l.holder ∧ site = l.site
      · -- what the first link has set is not set again
        rw [if_pos hc, if_pos hc, Option.map_map]
        congr 1
        funext k
        cases k <;> rfl
      · rw [if_neg hc, if_neg hc]

/-- A bundle that is not empty and whose links fit can be restored; its nodes come after those
of the graph. -/
theorem restore_eq_ok {b : Bundle} {g : Graph} (hb : b.nodes ≠ [])
    (h : ∀ l ∈ b.links, Fits g.size b.nodes.length ⟨g.nodes ++ b.nodes⟩ l) :
    ∃ g', b.restore g = .ok (g', g.size) ∧
      g'.unlinked = Graph.unlinked ⟨g.nodes ++ b.nodes⟩ ∧
      ∀ a site, g'.linkAt? a site =
        (Graph.linkAt? ⟨g.nodes ++ b.nodes⟩ a site).map fun k =>
          k <|> targetOf? g.size b.links a site := by
  obtain ⟨g', hg', hu, hl⟩ := replay_eq_ok h
  refine ⟨g', ?_, hu, hl⟩
  have he : b.nodes.isEmpty = false := by simpa using hb
  simp only [restore, he, hg']
  rfl

end Bundle
end Schema
end Marshal
