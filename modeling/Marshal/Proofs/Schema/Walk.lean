import Mathlib.Logic.Relation
import Marshal.Proofs.Schema.Copy
import Marshal.Proofs.Schema.References

/-!
# The walk that makes a bundle

A bundle is made by a **walk** from node to node.  It looks at the nodes in the order in which it
has noted them; at each it comes to the bases and then to the fields, notes what they refer to,
unless that has been noted before, and records the reference under the numbers of both nodes.  The
list of noted nodes grows while it is read, and yet the walk ends: what it has looked at are the
nodes of the first rounds, and no node is noted twice.

## Main definitions

* `Walk`, `Walk.visit` — how far a walk has come, and what it does at a node.
* `Walk.Ends` — a walk goes on until it has looked at all that it has noted.
* `Graph.Refers`, `Graph.ReachesIn` — references, and what some number of them leads to.

## Main results

* `Walk.ends_start_iff` — the walk ends, and what it has noted and recorded is the bundle.
* `Graph.eraseDups_encounters` — nodes stand in the order in which they are first come to.
* `Graph.reachesIn_mono` — what stands earlier is no further away.
* `Bundle.capture_walk` — what the bundle of a node is.
-/

namespace Marshal
namespace Schema

/-! ### Where a walk comes by -/

/-- The fields of a node, outermost first, with the paths that lead to them. -/
def Node.fieldPaths (n : Node) : List (List Nat × Field) :=
  n.fields.zipIdx.flatMap fun (f, i) => f.paths [i]

theorem Node.sites_eq (n : Node) :
    n.sites = (n.bases.zipIdx.map fun (b, i) => (Site.base i, b.link)) ++
      n.fieldPaths.map fun (path, f) => (Site.field path, f.link) := by
  rw [sites, fieldPaths, List.map_flatMap]

/-- The path that a field is found with leads to that field. -/
theorem Node.fieldAt?_of_mem_fieldPaths {n : Node} {path : List Nat} {f : Field}
    (h : (path, f) ∈ n.fieldPaths) : n.fieldAt? path = some f := by
  obtain ⟨⟨e, i⟩, he, h⟩ := List.mem_flatMap.1 h
  obtain ⟨r, rfl, hr⟩ := Field.mem_paths_iff.1 h
  show n.fields[i]?.bind (Field.at? r) = some f
  rw [List.mk_mem_zipIdx_iff_getElem?.1 he, Option.bind_some, hr]

theorem Node.mem_fieldPaths_of_fieldAt? {n : Node} {path : List Nat} {f : Field}
    (h : n.fieldAt? path = some f) : (path, f) ∈ n.fieldPaths := by
  cases path with
  | nil => cases h
  | cons i path =>
    obtain ⟨e, he, h⟩ := Option.bind_eq_some_iff.1 h
    refine List.mem_flatMap.2 ⟨(e, i), List.mk_mem_zipIdx_iff_getElem?.2 he, ?_⟩
    exact Field.mem_paths_iff.2 ⟨path, rfl, h⟩

/-- No two fields are found with one path. -/
theorem Node.nodup_fieldPaths (n : Node) : (n.fieldPaths.map Prod.fst).Nodup := by
  have h := n.pairwise_sites
  rw [sites_eq, List.pairwise_append, List.pairwise_map (l := n.fieldPaths)] at h
  rw [List.Nodup, List.pairwise_map]
  refine h.2.1.imp fun {p q} hpq heq => ?_
  exact Site.not_before_self (.field p.1) (by simpa only [heq] using hpq)

/-! ### Walks -/

/-- How far a walk has come. -/
structure Walk where
  /-- The nodes that it has noted. -/
  order : List NodeId
  /-- How many of them it has looked at. -/
  position : Nat
  /-- The references that it has recorded. -/
  links : List BundleLink

namespace Walk

/-- A walk that has noted nothing but the node it starts from. -/
def start (root : NodeId) : Walk := ⟨[root], 0, []⟩

/-- Come to a site of the node that is looked at.  What it refers to is noted, unless it has been
noted before, and the reference is recorded. -/
def meet (w : Walk) (site : Site) (link : Option NodeId) : Walk :=
  match link with
  | none => w
  | some target =>
      let order := Graph.note w.order target
      { w with order := order, links := w.links ++ [⟨w.position, site, order.idxOf target⟩] }

/-- Look at a node: come to its bases, then to its fields, and go on. -/
def visit (w : Walk) (n : Node) : Walk :=
  let w := n.bases.zipIdx.foldl (fun w (b, i) => w.meet (.base i) b.link) w
  let w := n.fieldPaths.foldl (fun w (path, f) => w.meet (.field path) f.link) w
  { w with position := w.position + 1 }

/-- A walk goes on, node by node, until it has looked at all that it has noted. -/
inductive Ends (g : Graph) : Walk → Walk → Prop
  | done {w : Walk} (h : w.order[w.position]? = none) : Ends g w w
  | look {w w' : Walk} {a : NodeId} {n : Node} (ha : w.order[w.position]? = some a)
      (hn : g.node? a = some n) (rest : Ends g (w.visit n) w') : Ends g w w'

/-- A walk has one end. -/
theorem Ends.unique {g : Graph} {w w₁ w₂ : Walk} (h₁ : Ends g w w₁) (h₂ : Ends g w w₂) :
    w₁ = w₂ := by
  induction h₁ with
  | done h =>
    cases h₂ with
    | done => rfl
    | look ha => rw [h] at ha; cases ha
  | look ha hn rest ih =>
    cases h₂ with
    | done h => rw [h] at ha; cases ha
    | look ha' hn' rest' =>
      obtain rfl := Option.some.inj (ha.symm.trans ha')
      obtain rfl := Option.some.inj (hn.symm.trans hn')
      exact ih rest'

/-! ### One node -/

theorem idxOf?_of_prefix {order final : List NodeId} (h : order <+: final) {a : NodeId}
    (ha : a ∈ order) : final.idxOf? a = some (order.idxOf a) := by
  obtain ⟨rest, rfl⟩ := h
  have hlt : order.idxOf a < order.length := List.idxOf_lt_length_iff.2 ha
  refine List.idxOf?_eq_some_iff.2 ⟨by rw [List.length_append]; omega, ?_, ?_⟩
  · rw [List.getElem_append_left hlt, List.getElem_idxOf hlt]
  · intro j hj heq
    rw [List.getElem_append_left (Nat.lt_trans hj hlt)] at heq
    have hne : (order[j] == a) = false := by simpa using List.not_of_lt_findIdx hj
    exact absurd heq (beq_eq_false_iff_ne.1 hne)

/-- Coming to sites notes what they refer to, and records it under the numbers it has in the end. -/
theorem foldl_meet {final : List NodeId} (sites : List (Site × Option NodeId)) (w : Walk)
    (h : (sites.filterMap (·.2)).foldl Graph.note w.order <+: final) :
    sites.foldl (fun w s => w.meet s.1 s.2) w =
      ⟨(sites.filterMap (·.2)).foldl Graph.note w.order, w.position,
        w.links ++ sites.filterMap fun (site, link) =>
          link.bind fun target => (final.idxOf? target).map fun i => ⟨w.position, site, i⟩⟩ := by
  induction sites generalizing w with
  | nil => simp
  | cons s sites ih =>
    obtain ⟨site, link⟩ := s
    cases link with
    | none => exact ih w h
    | some target =>
      have hpre : Graph.note w.order target <+: final :=
        (Graph.prefix_foldl_note _ _).trans h
      have hnumber := idxOf?_of_prefix hpre (Graph.mem_note.2 (Or.inr rfl))
      rw [List.foldl_cons, ih _ h]
      simp [meet, hnumber]

theorem visit_eq {final : List NodeId} (w : Walk) (n : Node)
    (h : (n.sites.filterMap (·.2)).foldl Graph.note w.order <+: final) :
    w.visit n =
      ⟨(n.sites.filterMap (·.2)).foldl Graph.note w.order, w.position + 1,
        w.links ++ n.sites.filterMap fun (site, link) =>
          link.bind fun target => (final.idxOf? target).map fun i => ⟨w.position, site, i⟩⟩ := by
  have hfold : w.visit n =
      { n.sites.foldl (fun w s => w.meet s.1 s.2) w with
        position := (n.sites.foldl (fun w s => w.meet s.1 s.2) w).position + 1 } := by
    rw [Node.sites_eq, List.foldl_append, List.foldl_map, List.foldl_map]
    rfl
  rw [hfold, foldl_meet n.sites w h]

/-! ### All nodes -/

/-- A walk that has looked at as many nodes. -/
def after (g : Graph) (root : NodeId) (k : Nat) : Walk :=
  ⟨g.rounds root k, k, ((g.reach root).take k).zipIdx.flatMap fun (a, i) =>
    Bundle.linksOf g (g.reach root) i a⟩

section

variable {g : Graph} {root : NodeId} (hg : g.Closed) (hroot : root < g.size)

include hg hroot

/-- What is noted in the end was noted when it is looked at. -/
theorem getElem?_rounds {k : Nat} (hk : k < (g.reach root).length) :
    (g.rounds root k)[k]? = (g.reach root)[k]? := by
  have hle := Graph.length_reach_le hg hroot
  have hlt : k < (g.rounds root k).length := by
    by_contra hc
    have hsame : g.reach root = g.rounds root k :=
      Graph.rounds_of_length_le (Nat.le_of_not_lt hc) (by omega)
    rw [hsame] at hk
    exact hc hk
  have hpre : g.rounds root k <+: g.reach root := Graph.rounds_mono (by omega)
  rw [List.getElem?_eq_getElem hlt,
    Graph.getElem?_mono hpre (List.getElem?_eq_getElem hlt)]

theorem visit_after {k : Nat} {a : NodeId} {n : Node} (ha : (g.reach root)[k]? = some a)
    (hn : g.node? a = some n) : (after g root k).visit n = after g root (k + 1) := by
  have hk : k < (g.reach root).length := (List.getElem?_eq_some_iff.1 ha).1
  have hle := Graph.length_reach_le hg hroot
  have hround : (g.rounds root k)[k]? = some a := (getElem?_rounds hg hroot hk).trans ha
  -- the targets of the node are noted in the next round
  have hnext : (n.sites.filterMap (·.2)).foldl Graph.note (g.rounds root k) =
      g.rounds root (k + 1) := by
    rw [Graph.rounds_succ, Graph.explore_eq g hround, Graph.targets_eq hn]
  have hpre : (n.sites.filterMap (·.2)).foldl Graph.note (after g root k).order <+:
      g.reach root := by
    rw [after, hnext]
    exact Graph.rounds_mono (by omega)
  rw [visit_eq _ _ hpre]
  simp only [after, hnext, List.take_add_one, ha, Option.toList_some, List.zipIdx_append,
    List.flatMap_append, mk.injEq, true_and]
  simp [Bundle.linksOf, hn, Nat.min_eq_left (Nat.le_of_lt hk)]

theorem ends_after {k : Nat} (hk : k ≤ (g.reach root).length) :
    Ends g (after g root k) (after g root (g.reach root).length) := by
  obtain ⟨d, hd⟩ := Nat.exists_eq_add_of_le hk
  induction d generalizing k with
  | zero =>
    obtain rfl : k = (g.reach root).length := by omega
    refine .done (List.getElem?_eq_none ?_)
    exact le_of_eq (congrArg List.length
      (Graph.rounds_length_reach (Graph.length_reach_le hg hroot)))
  | succ d ih =>
    have hlt : k < (g.reach root).length := by omega
    obtain ⟨n, hn⟩ := Graph.node?_of_mem_reach hg hroot (List.getElem_mem hlt)
    have ha := List.getElem?_eq_getElem hlt
    refine .look ((getElem?_rounds hg hroot hlt).trans ha) hn ?_
    rw [visit_after hg hroot ha hn]
    exact ih (by omega) (by omega)

theorem after_length :
    after g root (g.reach root).length =
      ⟨g.reach root, (g.reach root).length, (Bundle.capture g root).links⟩ := by
  rw [after, Graph.rounds_length_reach (Graph.length_reach_le hg hroot), List.take_length]
  rfl

/-- **The walk ends, and what it has noted and recorded by then is the bundle.** -/
theorem ends_start_iff {w : Walk} :
    Ends g (.start root) w ↔
      w = ⟨g.reach root, (g.reach root).length, (Bundle.capture g root).links⟩ := by
  have hends : Ends g (.start root) (after g root (g.reach root).length) :=
    ends_after hg hroot (Nat.zero_le _)
  rw [after_length hg hroot] at hends
  constructor
  · intro h
    exact h.unique hends
  · rintro rfl
    exact hends

end

end Walk

/-! ### The order of nodes -/

namespace Graph

/-- A site of one node, a base or a field at any depth, refers to another node. -/
def Refers (g : Graph) (a b : NodeId) : Prop := ∃ site, g.linkAt? a site = some (some b)

theorem mem_targets_iff {g : Graph} {a b : NodeId} : b ∈ g.targets a ↔ g.Refers a b := by
  constructor
  · intro h
    cases hn : g.node? a with
    | none => simp [targets, hn] at h
    | some n =>
      rw [targets_eq hn, List.mem_filterMap] at h
      obtain ⟨⟨site, link⟩, hs, rfl⟩ := h
      exact ⟨site, (linkAt?_eq hn site).trans (Node.mem_sites_iff.1 hs)⟩
  · rintro ⟨site, h⟩
    exact Bundle.mem_targets_of_linkAt? h

theorem reaches_iff_reflTransGen {g : Graph} {root a : NodeId} :
    g.Reaches root a ↔ Relation.ReflTransGen g.Refers root a := by
  constructor
  · intro h
    induction h with
    | refl => exact .refl
    | step _ hb ih => exact ih.tail (mem_targets_iff.1 hb)
  · intro h
    induction h with
    | refl => exact .refl
    | tail _ hb ih => exact ih.step (mem_targets_iff.2 hb)

/-- What a number of references leads to. -/
inductive ReachesIn (g : Graph) (root : NodeId) : Nat → NodeId → Prop
  | zero : ReachesIn g root 0 root
  | succ {n : Nat} {a b : NodeId} (ha : ReachesIn g root n a) (hb : g.Refers a b) :
      ReachesIn g root (n + 1) b

theorem ReachesIn.reaches {g : Graph} {root : NodeId} {n : Nat} {a : NodeId}
    (h : g.ReachesIn root n a) : g.Reaches root a := by
  induction h with
  | zero => exact .refl
  | succ _ hb ih => exact ih.step (mem_targets_iff.2 hb)

/-- Noting nodes drops those that have been noted before. -/
theorem foldl_note_eq_eraseDups (as : List NodeId) : as.foldl note [] = as.eraseDups := by
  induction as using List.reverseRecOn with
  | nil => rfl
  | append_singleton as a ih =>
    rw [List.foldl_append, ih, List.foldl_cons, List.foldl_nil, List.eraseDups_append, note]
    by_cases ha : a ∈ as
    · rw [if_pos (List.mem_eraseDups.2 ha)]
      simp [List.removeAll, ha]
    · rw [if_neg (mt List.mem_eraseDups.1 ha)]
      simp [List.removeAll, ha, List.eraseDups_cons]

section

variable {g : Graph} {root : NodeId} (hg : g.Closed) (hroot : root < g.size)

include hg hroot

theorem rounds_eq_foldl_note {k : Nat} (hk : k ≤ (g.reach root).length) :
    g.rounds root k = (root :: ((g.reach root).take k).flatMap g.targets).foldl note [] := by
  induction k with
  | zero => rfl
  | succ k ih =>
    have hget := List.getElem?_eq_getElem (l := g.reach root) hk
    have hround := (Walk.getElem?_rounds hg hroot hk).trans hget
    rw [rounds_succ, explore_eq g hround, ih (Nat.le_of_succ_le hk), List.take_add_one, hget,
      Option.toList_some, List.flatMap_append, ← List.cons_append, List.foldl_append,
      List.flatMap_singleton]

/-- **Nodes stand in the order in which they are first come to**: first the root, then what the
nodes refer to, node by node and site by site, each at its first place. -/
theorem eraseDups_encounters :
    (root :: (g.reach root).flatMap g.targets).eraseDups = g.reach root := by
  have h := rounds_eq_foldl_note hg hroot (Nat.le_refl _)
  rw [rounds_length_reach (length_reach_le hg hroot), List.take_length,
    foldl_note_eq_eraseDups] at h
  exact h.symm

omit hg hroot in
/-- What stands at a position has been noted by a node before it, and no later than what is noted
behind it. -/
theorem exists_holder {j v : Nat} {b : NodeId} (hj : 0 < j)
    (hlt : j < (g.rounds root (v + 1)).length) (hb : (g.rounds root (v + 1))[j]? = some b) :
    ∃ p a, p ≤ v ∧ p < j ∧ (g.rounds root (v + 1))[p]? = some a ∧ b ∈ g.targets a := by
  induction v with
  | zero =>
    refine ⟨0, root, Nat.le_refl 0, hj, getElem?_zero_rounds 1, ?_⟩
    have hmem := List.mem_of_getElem? hb
    rw [rounds_succ, explore_eq g rfl, mem_foldl_note, rounds_zero, List.mem_singleton] at hmem
    rcases hmem with rfl | hmem
    · -- the root is at the first position only
      have hzero := (List.getElem?_inj hlt (nodup_rounds 1)).1
        (hb.trans (getElem?_zero_rounds 1).symm)
      omega
    · exact hmem
  | succ v ih =>
    have hpre : g.rounds root (v + 1) <+: g.rounds root (v + 2) := rounds_mono (Nat.le_succ _)
    rcases Nat.lt_or_ge j (g.rounds root (v + 1)).length with hold | hnew
    · -- it has been noted in an earlier round
      have hb' : (g.rounds root (v + 1))[j]? = some b := by
        have hget := List.getElem?_eq_getElem hold
        rw [hget, ← hb, getElem?_mono hpre hget]
      obtain ⟨p, a, hp, hpj, ha, hba⟩ := ih hold hb'
      exact ⟨p, a, Nat.le_succ_of_le hp, hpj, getElem?_mono hpre ha, hba⟩
    · -- it is noted in this one
      cases ha : (g.rounds root (v + 1))[v + 1]? with
      | none =>
        rw [rounds_succ, explore_of_length_le g (List.getElem?_eq_none_iff.1 ha)] at hlt
        omega
      | some a =>
        have hv : v + 1 < (g.rounds root (v + 1)).length := (List.getElem?_eq_some_iff.1 ha).1
        refine ⟨v + 1, a, Nat.le_refl _, by omega, getElem?_mono hpre ha, ?_⟩
        have hmem := List.mem_of_getElem? hb
        rw [rounds_succ, explore_eq g ha, mem_foldl_note] at hmem
        rcases hmem with hmem | hmem
        · obtain ⟨i, hi, hget⟩ := List.getElem_of_mem hmem
          have hi' := getElem?_mono hpre (List.getElem?_eq_some_iff.2 ⟨hi, hget⟩)
          have hij := (List.getElem?_inj hlt (nodup_rounds (v + 2))).1 (hb.trans hi'.symm)
          omega
        · exact hmem

/-- **What stands earlier is no further away**: the walk is breadth first. -/
theorem reachesIn_mono {i j : Nat} {a b : NodeId} (hij : i ≤ j)
    (ha : (g.reach root)[i]? = some a) (hb : (g.reach root)[j]? = some b) {n : Nat}
    (hn : g.ReachesIn root n b) : ∃ m ≤ n, g.ReachesIn root m a := by
  have hle := length_reach_le hg hroot
  -- by induction on the position: a node is one reference behind the one that notes it
  induction i using Nat.strong_induction_on generalizing j a b n with
  | _ i ih =>
    rcases Nat.eq_zero_or_pos i with rfl | hi
    · obtain rfl := Option.some.inj (getElem?_zero_reach.symm.trans ha)
      exact ⟨0, Nat.zero_le n, .zero⟩
    · induction hn generalizing j with
      | zero =>
        have hj : 0 < (g.reach root).length := by
          have := (List.getElem?_eq_some_iff.1 hb).1
          omega
        have hzero := (List.getElem?_inj hj nodup_reach).1 (getElem?_zero_reach.trans hb.symm)
        omega
      | @succ n c b hc hcb ihc =>
        have hcmem : c ∈ g.reach root := (mem_reach_iff hg hroot).2 hc.reaches
        obtain ⟨v, hv, hget⟩ := List.getElem_of_mem hcmem
        have hcv : (g.reach root)[v]? = some c := List.getElem?_eq_some_iff.2 ⟨hv, hget⟩
        rcases Nat.lt_or_ge v i with hvi | hvi
        · -- the last node before the position notes what is behind it, so the position is noted
          have hround : (g.rounds root v)[v]? = some c :=
            (Walk.getElem?_rounds hg hroot hv).trans hcv
          have hpre : g.rounds root (v + 1) <+: g.reach root := rounds_mono (by omega)
          have hbmem : b ∈ g.rounds root (v + 1) := by
            rw [rounds_succ, explore_eq g hround, mem_foldl_note]
            exact Or.inr (mem_targets_iff.2 hcb)
          obtain ⟨k, hk, hkb⟩ := List.getElem_of_mem hbmem
          have hkb' := getElem?_mono hpre (List.getElem?_eq_some_iff.2 ⟨hk, hkb⟩)
          have hkj : k = j := by
            have hklt := Nat.lt_of_lt_of_le hk hpre.length_le
            exact (List.getElem?_inj hklt nodup_reach).1 (hkb'.trans hb.symm)
          have hilt : i < (g.rounds root (v + 1)).length := by omega
          have hia : (g.rounds root (v + 1))[i]? = some a := by
            have hi' := List.getElem?_eq_getElem hilt
            rw [hi', ← ha, getElem?_mono hpre hi']
          obtain ⟨p, d, hpv, hpi, hd, had⟩ := exists_holder hi hilt hia
          obtain ⟨m, hm, hmd⟩ := ih p hpi hpv (getElem?_mono hpre hd) hcv hc
          exact ⟨m + 1, Nat.succ_le_succ hm, hmd.succ (mem_targets_iff.1 had)⟩
        · obtain ⟨m, hm, hma⟩ := ihc hvi hcv
          exact ⟨m, Nat.le_succ_of_le hm, hma⟩

end

end Graph

/-! ### Bundles -/

namespace Bundle

open Schema.Graph

variable {g : Graph} {root : NodeId}

theorem pairwise_linksOf (order : List NodeId) (i : Nat) (a : NodeId) :
    (linksOf g order i a).Pairwise fun k l => k.site.Before l.site := by
  cases hn : g.node? a with
  | none => simp [linksOf, hn]
  | some n =>
    simp only [linksOf, hn]
    refine List.Pairwise.filterMap _ (R := fun s t => s.1.Before t.1) ?_ n.pairwise_sites
    rintro ⟨s, l⟩ ⟨t, m⟩ hst k hk k' hk'
    obtain ⟨b, rfl, hk⟩ := Option.bind_eq_some_iff.1 hk
    obtain ⟨j, -, rfl⟩ := Option.map_eq_some_iff.1 hk
    obtain ⟨b', rfl, hk'⟩ := Option.bind_eq_some_iff.1 hk'
    obtain ⟨j', -, rfl⟩ := Option.map_eq_some_iff.1 hk'
    exact hst

/-- No two links of a bundle are of one site of one node. -/
theorem nodup_links_capture :
    ((capture g root).links.map fun l => (l.holder, l.site)).Nodup := by
  rw [List.Nodup, List.pairwise_map, capture, List.pairwise_flatMap]
  constructor
  · rintro ⟨a, i⟩ -
    refine (pairwise_linksOf (g.reach root) i a).imp fun {k l} hkl heq => ?_
    rw [(Prod.mk.inj heq).2] at hkl
    exact Site.not_before_self _ hkl
  · refine (pairwise_zipIdx _).imp ?_
    rintro ⟨a, i⟩ ⟨b, j⟩ hij k hk l hl heq
    have hki : k.holder = i := (mem_linksOf_iff.1 hk).1
    have hlj : l.holder = j := (mem_linksOf_iff.1 hl).1
    have hholder : k.holder = l.holder := (Prod.mk.inj heq).1
    simp only at hij
    omega

theorem mem_links_capture_iff_getElem? {i j : Nat} {site : Site} :
    ⟨i, site, j⟩ ∈ (capture g root).links ↔ ∃ a b, (g.reach root)[i]? = some a ∧
      (g.reach root)[j]? = some b ∧ g.linkAt? a site = some (some b) := by
  rw [mem_links_capture_iff]
  refine exists_congr fun a => exists_congr fun b => and_congr_right fun ha => ?_
  constructor
  · rintro ⟨hb, hj⟩
    obtain ⟨hlt, hget, -⟩ := List.idxOf?_eq_some_iff.1 hj
    exact ⟨List.getElem?_eq_some_iff.2 ⟨hlt, hget⟩, hb⟩
  · rintro ⟨hj, hb⟩
    obtain ⟨hmem, hnumber⟩ := getElem?_reach_iff.1 hj
    exact ⟨hb, hnumber ▸ idxOf?_reach hmem⟩

/-- **The bundle of a node is made by a walk that ends.**  The walk looks at no more nodes than
there are, and has then noted the node itself first, and each node that can be reached by
references once and no other; they stand in the order in which they are first come to, and none
before one that is nearer.  What it has recorded are the references of these nodes, each once,
with the numbers of both ends.  The path of a recorded field leads, in the node that has the
number of the holder, to the field it was recorded for, since each path of a node is that of one
field. -/
theorem capture_walk (hg : g.Closed) (hroot : root < g.size) :
    let order := g.reach root
    (∀ w, Walk.Ends g (.start root) w ↔ w = ⟨order, order.length, (capture g root).links⟩) ∧
    order.length ≤ g.size ∧ (capture g root).nodes.map some = order.map g.node? ∧
    order[0]? = some root ∧ order.Nodup ∧
    (∀ a, a ∈ order ↔ Relation.ReflTransGen g.Refers root a) ∧
    (root :: order.flatMap g.targets).eraseDups = order ∧
    (∀ (i j n : Nat) (a b : NodeId), i ≤ j → order[i]? = some a → order[j]? = some b →
      g.ReachesIn root n b → ∃ m ≤ n, g.ReachesIn root m a) ∧
    ((capture g root).links.map fun l => (l.holder, l.site)).Nodup ∧
    (∀ i site j, ⟨i, site, j⟩ ∈ (capture g root).links ↔
      ∃ a b, order[i]? = some a ∧ order[j]? = some b ∧ g.linkAt? a site = some (some b)) ∧
    (∀ n ∈ (capture g root).nodes, (n.fieldPaths.map Prod.fst).Nodup ∧
      ∀ path f, (path, f) ∈ n.fieldPaths ↔ n.fieldAt? path = some f) ∧
    ∀ i path j, ⟨i, .field path, j⟩ ∈ (capture g root).links →
      ∃ n f, (capture g root).nodes[i]? = some n ∧ n.fieldAt? path = some f ∧
        f.link = order[j]? := by
  intro order
  have hnodes : (capture g root).nodes.map some = order.map g.node? := by
    rw [nodes_capture hg hroot, List.map_map]
    refine List.map_congr_left fun a ha => ?_
    obtain ⟨n, hn⟩ := node?_of_mem_reach hg hroot ha
    rw [Function.comp_apply, hn, Option.getD_some]
  refine ⟨fun w => Walk.ends_start_iff hg hroot, length_reach_le hg hroot, hnodes,
    getElem?_zero_reach, nodup_reach, fun a => ?_, eraseDups_encounters hg hroot,
    fun i j n a b hij ha hb hn => reachesIn_mono hg hroot hij ha hb hn, nodup_links_capture,
    fun i site j => mem_links_capture_iff_getElem?, fun n _ => ⟨n.nodup_fieldPaths, fun path f =>
      ⟨Node.fieldAt?_of_mem_fieldPaths, Node.mem_fieldPaths_of_fieldAt?⟩⟩, ?_⟩
  · rw [mem_reach_iff hg hroot, reaches_iff_reflTransGen]
  · intro i path j hl
    obtain ⟨a, b, ha, hb, hlink⟩ := mem_links_capture_iff_getElem?.1 hl
    obtain ⟨n, hn, hfield⟩ := Option.bind_eq_some_iff.1 hlink
    obtain ⟨f, hf, hf'⟩ := Option.map_eq_some_iff.1 hfield
    refine ⟨n, f, ?_, hf, hf'.trans hb.symm⟩
    have hi := congrArg (·[i]?) hnodes
    simp only [List.getElem?_map] at hi
    rw [show order[i]? = some a from ha, Option.map_some, hn, Option.map_eq_some_iff] at hi
    obtain ⟨m, hm, hmn⟩ := hi
    rw [hm, Option.some.inj hmn]

/-- Two types that refer to each other, one of them also to itself and from within a map, and a type
that refers to one of them. -/
def circle : Graph :=
  let field (name : String) (kind : Kind Field) (link : Option NodeId) : Field :=
    ⟨name, "", kind, "", .anyone, link⟩
  ⟨[⟨"Apart", .all, [], [field "first" .object (some 1)], []⟩,
    ⟨"First", .all, [],
      [field "table" (.map true (field "" .object (some 2))
        (field "" (.vector (field "" .pod (some 1))) none)) none],
      [⟨"Second", some 2⟩]⟩,
    ⟨"Second", .all, [], [field "back" .object (some 1), field "open" .object none], []⟩]⟩

theorem capture_walk_circle :
    (circle.Closed ∧ 1 < circle.size) ∧
    (∀ w, Walk.Ends circle (.start 1) w ↔
      w = ⟨[1, 2], 2, [⟨0, .base 0, 1⟩, ⟨0, .field [0, 0], 1⟩, ⟨0, .field [0, 1, 0], 0⟩,
        ⟨1, .field [0], 0⟩]⟩) ∧
    Relation.ReflTransGen circle.Refers 1 2 ∧ ¬ Relation.ReflTransGen circle.Refers 1 0 := by
  have hclosed : circle.Closed := by decide
  have hroot : 1 < circle.size := by decide
  have horder : circle.reach 1 = [1, 2] := by decide
  obtain ⟨hends, -, -, -, -, hreach, -⟩ := capture_walk hclosed hroot
  have hlinks : (capture circle 1).links = [⟨0, .base 0, 1⟩, ⟨0, .field [0, 0], 1⟩,
      ⟨0, .field [0, 1, 0], 0⟩, ⟨1, .field [0], 0⟩] := by decide
  rw [horder, hlinks] at hends
  rw [horder] at hreach
  exact ⟨⟨hclosed, hroot⟩, hends, (hreach 2).1 (by decide), mt (hreach 0).2 (by decide)⟩

end Bundle
end Schema
end Marshal
