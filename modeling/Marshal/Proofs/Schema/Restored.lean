import Marshal.Proofs.Schema.Copy
import Marshal.Proofs.Schema.Reprinted

/-!
# Bundles that come from outside

The link table of a bundle may say anything: there may be no node with the number it gives, no
such site in that node, or two links for one site.  The first link that cannot be set ends the
restoring, whatever the links before it have done, because setting a link takes no site away and
adds none.  When all can be set, a site ends up with the first link that names it.

## Main definitions

* `Bundle.has` — both ends of a link are in a bundle.
* `Bundle.Restored` — a graph with a bundle added to it.

## Main results

* `replay_eq_error` — a table ends at the first link that does not fit.
* `restore_eq_restored` — a bundle that has all its links is added.
* `restore_of_read` — what becomes of a bundle that was read.
-/

namespace Marshal
namespace Schema

namespace Bundle

open Schema.Graph

/-! ### Links that do not fit -/

theorem setLink_eq_error {offset count : Nat} {g : Graph} {l : BundleLink}
    (h : ¬ Fits offset count g l) :
    setLink offset count g l = .error (.invalidLink l.holder l.target) := by
  unfold setLink
  split
  · next hlt =>
    -- both numbers are in range, so it is the site that is missing
    have hnone : g.linkAt? (offset + l.holder) l.site = none := by
      by_contra hsite
      exact h ⟨hlt.1, hlt.2, hsite⟩
    rw [Graph.linkAt?] at hnone
    cases hn : g.node? (offset + l.holder) with
    | none => rfl
    | some n =>
      rw [hn, Option.bind_some] at hnone
      rw [Option.bind_some, Node.linkSite?_eq_none_iff.2 hnone]
  · rfl

/-- Setting links changes nothing about which links fit. -/
theorem fits_congr {offset count : Nat} {g g' : Graph}
    (h : ∀ a site, g'.linkAt? a site = none ↔ g.linkAt? a site = none) (l : BundleLink) :
    Fits offset count g' l ↔ Fits offset count g l := by
  unfold Fits
  rw [ne_eq, ne_eq, h]

/-- **A table of links ends at the first one that does not fit.** -/
theorem replay_eq_error {offset count : Nat} {before after : List BundleLink} {l : BundleLink}
    {g : Graph} (hbefore : ∀ k ∈ before, Fits offset count g k) (hl : ¬ Fits offset count g l) :
    (before ++ l :: after).foldlM (setLink offset count) g =
      .error (.invalidLink l.holder l.target) := by
  obtain ⟨g', hg', -, hlink⟩ := replay_eq_ok hbefore
  have hsame : ∀ a site, g'.linkAt? a site = none ↔ g.linkAt? a site = none := by
    intro a site
    rw [hlink, Option.map_eq_none_iff]
  have hl' : ¬ Fits offset count g' l := fun hc => hl ((fits_congr hsame l).1 hc)
  rw [List.foldlM_append, hg']
  show List.foldlM (setLink offset count) g' (l :: after) = _
  rw [List.foldlM_cons, setLink_eq_error hl']
  rfl

/-! ### Links of a bundle -/

/-- Both ends of a link are in a bundle: the node it refers to, the node that holds it, and in
that node the site. -/
def has (b : Bundle) (l : BundleLink) : Bool :=
  l.target < b.nodes.length && ((b.nodes[l.holder]?).bind (·.linkAt? l.site)).isSome

theorem linkAt?_append (g : Graph) (ns : List Node) (i : Nat) (site : Site) :
    Graph.linkAt? ⟨g.nodes ++ ns⟩ (g.size + i) site = (ns[i]?).bind (·.linkAt? site) := by
  unfold Graph.linkAt? node? size
  rw [List.getElem?_append_right (Nat.le_add_right _ _), Nat.add_sub_cancel_left]

theorem has_iff_fits {b : Bundle} {l : BundleLink} (g : Graph) :
    b.has l = true ↔ Fits g.size b.nodes.length ⟨g.nodes ++ b.nodes⟩ l := by
  unfold has Fits
  rw [linkAt?_append, Bool.and_eq_true, decide_eq_true_eq, Option.isSome_iff_ne_none]
  constructor
  · rintro ⟨htarget, hsite⟩
    refine ⟨htarget, ?_, hsite⟩
    by_contra hle
    rw [List.getElem?_eq_none (Nat.le_of_not_lt hle)] at hsite
    exact hsite rfl
  · rintro ⟨htarget, -, hsite⟩
    exact ⟨htarget, hsite⟩

/-- With a link that it does not have, a bundle is not restored. -/
theorem restore_eq_error {b : Bundle} {l : BundleLink} (g : Graph) (hb : b.nodes ≠ [])
    (hl : b.links.find? (fun k => !b.has k) = some l) :
    b.restore g = .error (.invalidLink l.holder l.target) := by
  obtain ⟨hnot, before, after, hsplit, hbefore⟩ := List.find?_eq_some_iff_append.1 hl
  have hfold : b.links.foldlM (setLink g.size b.nodes.length) ⟨g.nodes ++ b.nodes⟩ =
      .error (.invalidLink l.holder l.target) := by
    rw [hsplit]
    refine replay_eq_error (fun k hk => (has_iff_fits g).1 ?_) fun hfits => ?_
    · simpa using hbefore k hk
    · rw [(has_iff_fits g).2 hfits] at hnot
      cases hnot
  have he : b.nodes.isEmpty = false := by simpa using hb
  simp only [restore, he, hfold]
  rfl

theorem restore_nil {b : Bundle} (g : Graph) (hb : b.nodes = []) :
    b.restore g = .error .empty := by
  have he : b.nodes.isEmpty = true := by simpa using hb
  simp only [restore, he, if_true]
  rfl

theorem unlinked_of_mem {b : Bundle} (h : b.unlinked = b) {n : Node} (hn : n ∈ b.nodes) :
    n.unlinked = n := by
  have hnodes : b.nodes.map Node.unlinked = b.nodes.map id := by
    rw [List.map_id]
    exact congrArg Bundle.nodes h
  exact List.map_eq_map_iff.1 hnodes n hn

/-- No site of an unlinked node holds anything. -/
theorem linkAt?_of_unlinked {n : Node} (h : n.unlinked = n) {site : Site} {k : Option NodeId}
    (hk : n.linkAt? site = some k) : k = none := by
  rw [← h, Node.unlinked_eq_relink, Node.linkAt?_relink] at hk
  obtain ⟨-, -, hk⟩ := Option.map_eq_some_iff.1 hk
  exact hk.symm

/-! ### Restored graphs -/

/-- A graph with a bundle added to it: its nodes are as they were, and after them come the nodes
of the bundle, each site of which holds the target of the first link that names it, or nothing. -/
structure Restored (b : Bundle) (g g' : Graph) : Prop where
  size : g'.size = g.size + b.nodes.length
  kept : ∀ a, a < g.size → g'.node? a = g.node? a
  added : ∀ i n, b.nodes[i]? = some n → ∃ m, g'.node? (g.size + i) = some m ∧ m.unlinked = n ∧
    ∀ site, m.linkAt? site = (n.linkAt? site).map fun _ =>
      (b.links.find? fun l => l.holder = i ∧ l.site = site).map (g.size + ·.target)

/-- No link of the table is for a node that was there before. -/
theorem targetOf?_of_lt {offset a : Nat} (links : List BundleLink) (site : Site)
    (h : a < offset) : targetOf? offset links a site = none := by
  rw [targetOf?, Option.map_eq_none_iff, List.find?_eq_none]
  intro l _ hc
  simp only [decide_eq_true_eq] at hc
  omega

theorem targetOf?_add (offset i : Nat) (links : List BundleLink) (site : Site) :
    targetOf? offset links (offset + i) site =
      (links.find? fun l => l.holder = i ∧ l.site = site).map (offset + ·.target) := by
  unfold targetOf?
  simp only [Nat.add_left_cancel_iff]

/-- A bundle of nodes without links is restored if it has all its links. -/
theorem restore_eq_restored {b : Bundle} (g : Graph) (hunlinked : b.unlinked = b)
    (hb : b.nodes ≠ []) (hall : ∀ l ∈ b.links, b.has l = true) :
    ∃ g', b.restore g = .ok (g', g.size) ∧ Restored b g g' := by
  obtain ⟨g', hg', hu, hlink⟩ := restore_eq_ok hb fun l hl => (has_iff_fits g).1 (hall l hl)
  have hnodes : g'.nodes.map Node.unlinked = (g.nodes ++ b.nodes).map Node.unlinked :=
    congrArg Graph.nodes hu
  -- a node of the result has the description of the node at its place, and links for its sites
  have hnode : ∀ a n, (g.nodes ++ b.nodes)[a]? = some n →
      ∃ m, g'.node? a = some m ∧ m.unlinked = n.unlinked ∧ ∀ site, m.linkAt? site =
        (n.linkAt? site).map fun k => k <|> targetOf? g.size b.links a site := by
    intro a n hn
    have ha := congrArg (·[a]?) hnodes
    simp only [List.getElem?_map, hn, Option.map_some] at ha
    obtain ⟨m, hm, hdesc⟩ := Option.map_eq_some_iff.1 ha
    refine ⟨m, hm, hdesc, fun site => ?_⟩
    have hs := hlink a site
    rwa [linkAt?_eq hm, linkAt?_eq (g := ⟨g.nodes ++ b.nodes⟩) hn] at hs
  refine ⟨g', hg', ?_, fun a ha => ?_, fun i n hn => ?_⟩
  · have hlen := congrArg List.length hnodes
    simpa [Graph.size] using hlen
  · obtain ⟨n, hn⟩ := node?_eq_some_of_lt ha
    have happ : (g.nodes ++ b.nodes)[a]? = some n := by
      rw [List.getElem?_append_left ha]
      exact hn
    obtain ⟨m, hm, hdesc, hsite⟩ := hnode a n happ
    rw [hm, hn]
    refine congrArg some (Node.eq_of_unlinked_of_linkAt? hdesc fun site => ?_)
    rw [hsite, targetOf?_of_lt b.links site ha]
    cases n.linkAt? site with
    | none => rfl
    | some k => cases k <;> rfl
  · have happ : (g.nodes ++ b.nodes)[g.size + i]? = some n := by
      rw [Graph.size, List.getElem?_append_right (Nat.le_add_right _ _), Nat.add_sub_cancel_left]
      exact hn
    obtain ⟨m, hm, hdesc, hsite⟩ := hnode (g.size + i) n happ
    have hself : n.unlinked = n := unlinked_of_mem hunlinked (List.mem_of_getElem? hn)
    refine ⟨m, hm, hdesc.trans hself, fun site => ?_⟩
    rw [hsite, targetOf?_add]
    cases hk : n.linkAt? site with
    | none => rfl
    | some k =>
      obtain rfl := linkAt?_of_unlinked hself hk
      rfl

/-! ### What was read -/

/-- A bundle has no nodes, or lacks one of its links, or has them all. -/
theorem empty_or_lacks_or_has (b : Bundle) :
    b.nodes = [] ∨ b.nodes ≠ [] ∧
      ((∃ l, b.links.find? (fun k => !b.has k) = some l) ∨ ∀ l ∈ b.links, b.has l = true) := by
  by_cases hb : b.nodes = []
  · exact .inl hb
  · refine .inr ⟨hb, ?_⟩
    cases hf : b.links.find? (fun k => !b.has k) with
    | some l => exact .inl ⟨l, rfl⟩
    | none =>
      refine .inr fun l hl => ?_
      simpa using List.find?_eq_none.1 hf l hl

/-- **What becomes of a bundle that was read**, whatever its table says.  It is refused as empty
if it has no nodes, and otherwise with the ends of the first link that it does not have.  If it has
them all, its nodes come after those of the graph, the first one as the root, and a site holds the
target of the first link that names it, or nothing if none does. -/
theorem restore_of_read {raw : Raw} {b : Bundle} (h : Json.read readBundle raw = .ok b)
    (g : Graph) :
    (b.restore g = .error .empty ↔ b.nodes = []) ∧
    (∀ holder target, b.restore g = .error (.invalidLink holder target) ↔
      b.nodes ≠ [] ∧ ∃ l, b.links.find? (fun k => !b.has k) = some l ∧
        l.holder = holder ∧ l.target = target) ∧
    (∀ g' root, b.restore g = .ok (g', root) → root = g.size ∧ Restored b g g') ∧
    ((∃ g' root, b.restore g = .ok (g', root)) ↔
      b.nodes ≠ [] ∧ ∀ l ∈ b.links, b.has l = true) := by
  have hunlinked : b.unlinked = b := (Json.read_within measures_bundle h).1
  rcases empty_or_lacks_or_has b with hb | ⟨hb, ⟨l, hl⟩ | hall⟩
  · simp [restore_nil g hb, hb]
  · have hlacks : ¬ ∀ k ∈ b.links, b.has k = true := by
      intro hall
      have hnot := List.find?_some hl
      rw [hall l (List.mem_of_find?_eq_some hl)] at hnot
      cases hnot
    simp [restore_eq_error g hb hl, hb, hl, hlacks]
  · obtain ⟨g', hg', hrestored⟩ := restore_eq_restored g hunlinked hb hall
    have hnone : b.links.find? (fun k => !b.has k) = none := by
      rw [List.find?_eq_none]
      intro l hl
      simp [hall l hl]
    refine ⟨?_, fun holder target => ?_, fun g'' root hrestore => ?_, ?_⟩
    · simp [hg', hb]
    · simp [hg', hnone]
    · rw [hg'] at hrestore
      cases hrestore
      exact ⟨rfl, hrestored⟩
    · exact ⟨fun _ => ⟨hb, hall⟩, fun _ => ⟨g', g.size, hg'⟩⟩

/-- Two nodes, the first with a list of numbers, and two links for the element of the list, before
the `rest` of the table; records are spelled as lists where that is shorter. -/
def twiceLinked (rest : String) : String :=
  "\x7b\"nodes\":[" ++
    "\x7b\"name\":\"A\",\"fields\":[\x7b\"type\":[\"vector\",[\"\",\"\",[\"int\"]]]\x7d]\x7d," ++
    "\x7b\"name\":\"B\"\x7d],\"links\":[[0,[\"field\",[0,0]],1]," ++
    "[0,[\"field\",[0,0]],0]" ++ rest ++ "]\x7d"

/-- A link on a path that goes on below a number. -/
def tooLongPath : String := ",[0,[\"field\",[0,0,0]],1]"

theorem restore_of_read_twice :
    (∃ b g', Json.read readBundle (Raw.ofText (twiceLinked "")) = .ok b ∧
      b.restore .empty = .ok (g', 0) ∧ g'.size = 2 ∧
      g'.linkAt? 0 (.field [0, 0]) = some (some 1) ∧ g'.linkAt? 0 (.field [0]) = some none) ∧
    ∃ b, Json.read readBundle (Raw.ofText (twiceLinked tooLongPath)) = .ok b ∧
      b.restore .empty = .error (.invalidLink 0 1) := by
  constructor
  · have hread : (Json.read readBundle (Raw.ofText (twiceLinked ""))).toOption.map
        (fun b => (b.nodes.map Node.sites, b.links, b.links.all b.has)) =
        some ([[(.field [0], none), (.field [0, 0], none)], []],
          [⟨0, .field [0, 0], 1⟩, ⟨0, .field [0, 0], 0⟩], true) := by decide +kernel
    cases hb : Json.read readBundle (Raw.ofText (twiceLinked "")) with
    | error e => rw [hb] at hread; cases hread
    | ok b =>
      rw [hb] at hread
      obtain ⟨hnodes, hlinks, hall⟩ := by simpa using Option.some.inj hread
      obtain ⟨n, rest, hcons, hsites, -⟩ := List.map_eq_cons_iff.1 hnodes
      obtain ⟨-, hok, hiff⟩ := (restore_of_read hb .empty).2
      obtain ⟨g', root, hg'⟩ := hiff.2 ⟨by simp [hcons], by simpa using hall⟩
      obtain ⟨rfl, hrestored⟩ := hok g' root hg'
      obtain ⟨m, hm, -, hlink⟩ := hrestored.added 0 n (by simp [hcons])
      have hsite : ∀ site, (site, none) ∈ n.sites → g'.linkAt? 0 site =
          some ((b.links.find? fun l => l.holder = 0 ∧ l.site = site).map (0 + ·.target)) := by
        intro site hmem
        rw [← Nat.zero_add 0]
        refine (linkAt?_eq hm site).trans ?_
        rw [hlink, Node.mem_sites_iff.1 hmem]
        rfl
      refine ⟨b, g', rfl, hg', ?_, ?_, ?_⟩
      · have hlen := congrArg List.length hnodes
        rw [hrestored.size, ← List.length_map Node.sites, hlen]
        rfl
      · rw [hsite _ (by simp [hsites]), hlinks]
        rfl
      · rw [hsite _ (by simp [hsites]), hlinks]
        rfl
  · have hread : (Json.read readBundle (Raw.ofText (twiceLinked tooLongPath))).toOption.map
        (fun b => (b.nodes.isEmpty, b.links.find? fun k => !b.has k)) =
        some (false, some ⟨0, .field [0, 0, 0], 1⟩) := by decide +kernel
    cases hb : Json.read readBundle (Raw.ofText (twiceLinked tooLongPath)) with
    | error e => rw [hb] at hread; cases hread
    | ok b =>
      rw [hb] at hread
      have hparts := Option.some.inj hread
      simp only [Prod.mk.injEq] at hparts
      have hne : b.nodes ≠ [] := by simpa using hparts.1
      refine ⟨b, rfl, ((restore_of_read hb .empty).2.1 0 1).2 ⟨hne, _, hparts.2, rfl, rfl⟩⟩

end Bundle
end Schema
end Marshal
