import Marshal.Proofs.Schema.Relinked

/-!
# What linking reports

The **references** of a node are its bases and the records among its fields, at any depth.  They
come in one order: the bases first, then the fields, each before what is inside it, and of what is
inside a field the first before the second.  Linking a list of nodes goes through their references
in this order.  It sets those that are open and whose spelling stands for something, and counts
them; those that stay open it reports, each under the field of the node that it belongs to.

## Main definitions

* `Site.Before` — the order of sites.
* `Node.references`, `Graph.references` — the references of a node, and of a list of nodes.
* `Node.openReference`, `Graph.openReference` — how a reference is reported.
* `Graph.relinked` — a graph that was linked any number of times.

## Main results

* `Names.resolve?_eq_some_iff` — what a spelling stands for.
* `Node.pairwise_references`, `Node.mem_references_iff` — the references of a node, in order.
* `Node.linkReport_eq` — what linking a node reports, reference by reference.
* `Graph.linkAt?_link`, `Graph.report_link` — what linking a list of nodes does and reports.
* `Graph.link_references` — linking, linking again, and linking with other names.
-/

namespace Marshal
namespace Schema

/-! ### Names -/

/-- **What a spelling stands for**: what it is a name of, or else what it is a name of without one
leading `::`.  The empty spelling stands for nothing. -/
theorem Names.resolve?_eq_some_iff {names : Names} {spelling : String} {target : NodeId} :
    names.resolve? spelling = some target ↔ spelling ≠ "" ∧
      (names.get? spelling = some target ∨ names.get? spelling = none ∧
        ∃ rest, spelling = "::" ++ rest ∧ names.get? rest = some target) := by
  have hglobal : ∀ rest, withoutGlobal? spelling = some rest ↔ spelling = "::" ++ rest := by
    intro rest
    unfold withoutGlobal?
    constructor
    · intro h
      split at h
      · rename_i cs hcs
        obtain rfl := Option.some.inj h
        simp [← String.toList_inj, hcs]
      · cases h
    · rintro rfl
      rw [String.toList_append]
      show some (String.ofList rest.toList) = some rest
      rw [String.ofList_toList]
  unfold resolve?
  by_cases hempty : spelling = ""
  · simp [hempty]
  · rw [if_neg hempty]
    cases hget : names.get? spelling with
    | some id => simp [hempty]
    | none => simp [hempty, hglobal, Option.bind_eq_some_iff]

/-! ### The order of sites -/

/-- Bases come before fields; bases and fields each come in the order of their positions, and a
field before what is inside it. -/
def Site.Before : Site → Site → Prop
  | .base i, .base j => i < j
  | .base _, .field _ => True
  | .field _, .base _ => False
  | .field path, .field other => path < other

theorem Site.not_before_self (site : Site) : ¬ site.Before site := by
  cases site with
  | base i => exact Nat.lt_irrefl i
  | field path => exact List.lt_irrefl path

theorem pairwise_zipIdx {α : Type} (as : List α) :
    as.zipIdx.Pairwise fun a b => a.2 < b.2 := by
  have h := List.pairwise_lt_range' (s := 0) (n := as.length) 1
  rwa [← List.zipIdx_map_snd, List.pairwise_map] at h

namespace Field

/-- The paths in a field come in the order of positions, each before those that go on from it. -/
theorem pairwise_paths (path : List Nat) (f : Field) :
    (f.paths path).Pairwise fun a b => a.1 < b.1 := by
  induction f using Field.childInduction generalizing path with
  | step f ih =>
    rw [paths_eq, List.pairwise_cons, List.pairwise_flatMap]
    -- the field itself, the paths within one child, and those of two children
    refine ⟨?_, ?_, (pairwise_zipIdx _).imp ?_⟩
    · rintro ⟨q, e⟩ he
      obtain ⟨⟨c, i⟩, -, he⟩ := List.mem_flatMap.1 he
      obtain ⟨r, rfl, -⟩ := mem_paths_iff.1 he
      show path < path ++ [i] ++ r
      have hlt : path ++ [] < path ++ (i :: r) := List.append_left_lt (List.nil_lt_cons i r)
      simpa using hlt
    · rintro ⟨c, i⟩ hc
      exact ih c (List.mem_of_getElem? (List.mk_mem_zipIdx_iff_getElem?.1 hc)) _
    · rintro ⟨c, i⟩ ⟨c', j⟩ hij ⟨q, e⟩ he ⟨q', e'⟩ he'
      obtain ⟨r, rfl, -⟩ := mem_paths_iff.1 he
      obtain ⟨r', rfl, -⟩ := mem_paths_iff.1 he'
      show path ++ [i] ++ r < path ++ [j] ++ r'
      rw [List.append_assoc, List.append_assoc]
      exact List.append_left_lt (List.cons_lt_cons_iff.2 (.inl hij))

/-- The fields that the paths lead to are all that is inside a field, in the same order. -/
theorem map_snd_paths (path : List Nat) (f : Field) :
    (f.paths path).map Prod.snd = f.descendants := by
  induction f using Field.childInduction generalizing path with
  | step f ih =>
    rw [paths_eq, descendants_eq, List.map_cons, List.map_flatMap]
    have hchildren : f.kind.children.zipIdx.flatMap (fun p => (p.1.paths (path ++ [p.2])).map Prod.snd) =
        f.kind.children.zipIdx.flatMap fun p => p.1.descendants :=
      List.flatMap_congr fun p hp =>
        ih p.1 (List.mem_of_getElem? (List.mk_mem_zipIdx_iff_getElem?.1 hp)) _
    rw [hchildren, ← List.flatMap_map, List.zipIdx_map_fst]

end Field

namespace Node

/-- The sites of a node come in order. -/
theorem pairwise_sites (n : Node) : n.sites.Pairwise fun a b => a.1.Before b.1 := by
  unfold sites
  rw [List.pairwise_append, List.pairwise_map, List.pairwise_flatMap]
  -- bases among each other, fields within one and among each other, and bases before fields
  refine ⟨pairwise_zipIdx _, ⟨?_, (pairwise_zipIdx _).imp ?_⟩, ?_⟩
  · rintro ⟨f, i⟩ -
    rw [List.pairwise_map]
    exact Field.pairwise_paths [i] f
  · rintro ⟨f, i⟩ ⟨f', j⟩ hij a ha b hb
    obtain ⟨⟨q, e⟩, he, rfl⟩ := List.mem_map.1 ha
    obtain ⟨⟨q', e'⟩, he', rfl⟩ := List.mem_map.1 hb
    obtain ⟨r, rfl, -⟩ := Field.mem_paths_iff.1 he
    obtain ⟨r', rfl, -⟩ := Field.mem_paths_iff.1 he'
    exact List.cons_lt_cons_iff.2 (.inl hij)
  · intro a ha b hb
    obtain ⟨⟨base, i⟩, -, rfl⟩ := List.mem_map.1 ha
    obtain ⟨⟨f, j⟩, -, hb⟩ := List.mem_flatMap.1 hb
    obtain ⟨⟨q, e⟩, -, rfl⟩ := List.mem_map.1 hb
    trivial

/-! ### The references of a node -/

/-- The references of a node: its bases, then the records among its fields, in order. -/
def references (n : Node) : List Site :=
  (n.sites.map Prod.fst).filter fun site => (n.spelling? site).isSome

/-- What a site of a node is reported under: the name of the field it belongs to, or `<base>`. -/
def label (n : Node) : Site → String
  | .base _ => "<base>"
  | .field path => (path.head?.bind (n.fields[·]?)).elim "" (·.name)

/-- How a reference of a node is reported. -/
def openReference (n : Node) (site : Site) : OpenReference :=
  ⟨n.name, n.label site, (n.spelling? site).getD ""⟩

/-- **The references of a node come in order**, each once. -/
theorem pairwise_references (n : Node) : n.references.Pairwise Site.Before :=
  (List.pairwise_map.2 n.pairwise_sites).filter _

theorem exists_linkAt?_of_spelling? {n : Node} {site : Site} (h : (n.spelling? site).isSome) :
    ∃ l, n.linkAt? site = some l := by
  cases site with
  | base i =>
    cases hb : n.bases[i]? with
    | none => simp [spelling?, hb] at h
    | some b => exact ⟨b.link, by rw [linkAt?, hb, Option.map_some]⟩
  | field path =>
    cases hf : n.fieldAt? path with
    | none => simp [spelling?, hf] at h
    | some f => exact ⟨f.link, by rw [linkAt?, hf, Option.map_some]⟩

/-- **The references of a node** are the sites that have a spelling. -/
theorem mem_references_iff {n : Node} {site : Site} :
    site ∈ n.references ↔ (n.spelling? site).isSome := by
  unfold references
  rw [List.mem_filter]
  refine ⟨And.right, fun h => ⟨?_, h⟩⟩
  obtain ⟨l, hl⟩ := exists_linkAt?_of_spelling? h
  exact List.mem_map_of_mem (mem_sites_iff.2 hl)

/-- Which references a node has does not depend on what they are linked to. -/
theorem references_unlinked (n : Node) : n.unlinked.references = n.references := by
  unfold references
  rw [unlinked_eq_relink, sites_relink, List.map_map, ← unlinked_eq_relink]
  exact List.filter_congr fun site _ => by rw [spelling?_unlinked]

/-- How references are reported does not depend on what they are linked to. -/
theorem openReference_unlinked (n : Node) : n.unlinked.openReference = n.openReference := by
  funext site
  have hlabel : n.unlinked.label site = n.label site := by
    cases site with
    | base i => rfl
    | field path =>
      cases path with
      | nil => rfl
      | cons i path =>
        show (n.fields.map Field.unlinked)[i]?.elim "" (·.name) = (n.fields[i]?).elim "" (·.name)
        rw [List.getElem?_map]
        cases n.fields[i]? with
        | none => rfl
        | some f => cases f; rfl
  rw [openReference, hlabel, spelling?_unlinked]
  rfl

/-! ### What linking a node reports -/

/-- Whether a site holds a reference that is open. -/
def isOpenAt (n : Node) (site : Site) : Bool := (n.linkAt? site).any Option.isNone

/-- What the reference at a site is found to stand for. -/
def found? (names : Names) (n : Node) (site : Site) : Option NodeId :=
  (n.spelling? site).bind names.resolve?

/-- What linking the references at some sites of a node comes to. -/
def reportOn (names : Names) (n : Node) (sites : List Site) : LinkReport :=
  ⟨sites.countP fun site => n.isOpenAt site && (n.found? names site).isSome,
    (sites.filter fun site => n.isOpenAt site && (n.found? names site).isNone).map n.openReference⟩

theorem reportOn_append (names : Names) (n : Node) (sites sites' : List Site) :
    n.reportOn names (sites ++ sites') =
      (n.reportOn names sites).append (n.reportOn names sites') := by
  simp [reportOn, LinkReport.append]

/-- What is reported of one site after another. -/
theorem foldl_reportOn (names : Names) (n : Node) (parts : List (List Site)) (r : LinkReport) :
    (parts.map (n.reportOn names)).foldl LinkReport.append r =
      r.append (n.reportOn names parts.flatten) := by
  induction parts generalizing r with
  | nil => exact r.append_empty.symm
  | cons part parts ih =>
    rw [List.map_cons, List.foldl_cons, ih, List.flatten_cons, reportOn_append,
      LinkReport.append_assoc]

theorem reportOn_base (names : Names) {n : Node} {i : Nat} {b : Base} (h : n.bases[i]? = some b) :
    n.reportOn names [.base i] = b.linkReport names n.name := by
  have hopen : n.isOpenAt (.base i) = b.link.isNone := by
    rw [isOpenAt, linkAt?, h, Option.map_some, Option.any_some]
  have hname : n.spelling? (.base i) = some b.name := by rw [spelling?, h, Option.map_some]
  have hfound : n.found? names (.base i) = names.resolve? b.name := by
    rw [found?, hname, Option.bind_some]
  have hreference : n.openReference (.base i) = ⟨n.name, "<base>", b.name⟩ := by
    rw [openReference, hname, label, Option.getD_some]
  unfold reportOn Base.linkReport
  rw [List.countP_singleton, List.filter_singleton, hopen, hfound]
  cases b.link <;> cases names.resolve? b.name <;> simp [LinkReport.empty, hreference]

theorem reportOn_field (names : Names) {n : Node} {i : Nat} {f : Field}
    (h : n.fields[i]? = some f) :
    n.reportOn names (((f.paths [i]).filter fun p => p.2.kind.isRecord).map fun p => .field p.1) =
      f.linkReport names n.name f.name := by
  -- at each path that leads to a record, the node has what the record says of itself
  have hrecord : ∀ p ∈ (f.paths [i]).filter fun p => p.2.kind.isRecord,
      n.isOpenAt (.field p.1) = p.2.isOpen ∧
      n.found? names (.field p.1) = names.resolve? p.2.typeName ∧
      n.openReference (.field p.1) = ⟨n.name, f.name, p.2.typeName⟩ := by
    rintro ⟨q, e⟩ hp
    obtain ⟨hp, hkind⟩ := List.mem_filter.1 hp
    obtain ⟨r, rfl, hr⟩ := Field.mem_paths_iff.1 hp
    have hat : n.fieldAt? ([i] ++ r) = some e := by
      show n.fields[i]?.bind (Field.at? r) = some e
      rw [h, Option.bind_some, hr]
    have hname : n.spelling? (.field ([i] ++ r)) = some e.typeName := by
      rw [spelling?, hat, Option.bind_some, if_pos hkind]
    have hlabel : n.label (.field ([i] ++ r)) = f.name := by
      show (n.fields[i]?).elim "" (·.name) = f.name
      rw [h, Option.elim_some]
    refine ⟨?_, by rw [found?, hname, Option.bind_some], ?_⟩
    · rw [isOpenAt, linkAt?, hat, Option.map_some, Option.any_some, Field.isOpen, hkind,
        Bool.true_and]
    · rw [openReference, hlabel, hname, Option.getD_some]
  -- linking a field counts what is inside it, so the paths are dropped from both sides
  unfold reportOn Field.linkReport
  rw [← Field.map_snd_paths [i] f]
  have hopens : ((f.paths [i]).map Prod.snd).filter Field.isOpen =
      (((f.paths [i]).filter fun p => p.2.kind.isRecord).filter fun p => p.2.isOpen).map Prod.snd := by
    rw [List.filter_map, List.filter_filter]
    refine congrArg _ (List.filter_congr fun p _ => ?_)
    show p.2.isOpen = (p.2.isOpen && p.2.kind.isRecord)
    rw [Field.isOpen]
    cases p.2.kind.isRecord <;> simp
  rw [hopens]
  generalize (f.paths [i]).filter (fun p => p.2.kind.isRecord) = records at hrecord
  congr 1
  · rw [List.countP_map, ← List.countP_eq_length_filter, List.countP_map, List.countP_filter]
    refine List.countP_congr fun p hp => ?_
    obtain ⟨hopen, hfound, -⟩ := hrecord p hp
    simp [hopen, hfound, and_comm]
  · rw [List.filter_map, List.filter_map, List.filter_filter, List.map_map, List.map_map]
    have hsame : records.filter
          ((fun site => n.isOpenAt site && (n.found? names site).isNone) ∘ fun p => .field p.1) =
        records.filter fun p => (names.resolve? p.2.typeName).isNone && p.2.isOpen := by
      refine List.filter_congr fun p hp => ?_
      obtain ⟨hopen, hfound, -⟩ := hrecord p hp
      rw [Function.comp_apply, hopen, hfound, Bool.and_comm]
    rw [hsame]
    exact List.map_congr_left fun p hp => (hrecord p (List.mem_of_mem_filter hp)).2.2

theorem references_eq (n : Node) :
    n.references = (n.bases.zipIdx.map fun (_, i) => Site.base i) ++
      n.fields.zipIdx.flatMap fun (f, i) =>
        ((f.paths [i]).filter fun p => p.2.kind.isRecord).map fun p => .field p.1 := by
  unfold references sites
  rw [List.map_append, List.filter_append, List.map_map, List.map_flatMap, List.filter_flatMap]
  congr 1
  · refine List.filter_eq_self.2 fun site hsite => ?_
    obtain ⟨⟨b, i⟩, hb, rfl⟩ := List.mem_map.1 hsite
    simp [spelling?, List.mk_mem_zipIdx_iff_getElem?.1 hb]
  · refine List.flatMap_congr ?_
    rintro ⟨f, i⟩ hf
    rw [List.map_map, List.filter_map]
    refine congrArg _ (List.filter_congr ?_)
    rintro ⟨q, e⟩ hp
    obtain ⟨r, rfl, hr⟩ := Field.mem_paths_iff.1 hp
    have hat : n.fieldAt? ([i] ++ r) = some e := by
      show n.fields[i]?.bind (Field.at? r) = some e
      rw [List.mk_mem_zipIdx_iff_getElem?.1 hf, Option.bind_some, hr]
    show (n.spelling? (.field ([i] ++ r))).isSome = e.kind.isRecord
    rw [spelling?, hat, Option.bind_some]
    cases e.kind.isRecord <;> rfl

/-- **What linking a node reports** are its references, one after the other. -/
theorem linkReport_eq (names : Names) (n : Node) :
    n.linkReport names = n.reportOn names n.references := by
  have hbases : n.bases.map (Base.linkReport names n.name) =
      (n.bases.zipIdx.map fun (_, i) => [Site.base i]).map (n.reportOn names) := by
    rw [List.map_map, ← List.zipIdx_map_fst 0 n.bases, List.map_map, List.zipIdx_map_fst]
    refine List.map_congr_left ?_
    rintro ⟨b, i⟩ hb
    exact (reportOn_base names (List.mk_mem_zipIdx_iff_getElem?.1 hb)).symm
  have hfields : n.fields.map (fun f => f.linkReport names n.name f.name) =
      (n.fields.zipIdx.map fun (f, i) => ((f.paths [i]).filter fun p => p.2.kind.isRecord).map
        fun p => Site.field p.1).map (n.reportOn names) := by
    rw [List.map_map, ← List.zipIdx_map_fst 0 n.fields, List.map_map, List.zipIdx_map_fst]
    refine List.map_congr_left ?_
    rintro ⟨f, i⟩ hf
    exact (reportOn_field names (List.mk_mem_zipIdx_iff_getElem?.1 hf)).symm
  rw [linkReport, hbases, hfields, ← List.map_append, foldl_reportOn, LinkReport.empty_append,
    references_eq, List.flatten_append, ← List.flatMap_def, ← List.flatMap_def]
  congr 2
  exact List.map_eq_flatMap.symm

end Node

/-! ### Lists of nodes -/

theorem map_some_filterMap {α β : Type} {f : α → Option β} {as : List α}
    (h : ∀ a ∈ as, (f a).isSome) : (as.filterMap f).map some = as.map f := by
  induction as with
  | nil => rfl
  | cons a as ih =>
    obtain ⟨ha, has⟩ := List.forall_mem_cons.1 h
    obtain ⟨b, hb⟩ := Option.isSome_iff_exists.1 ha
    rw [List.filterMap_cons_some hb, List.map_cons, List.map_cons, ih has, hb]

namespace Graph

/-- How the reference at a site of a node is spelled; nothing if there is no reference. -/
def spelling? (g : Graph) (a : NodeId) (site : Site) : Option String :=
  (g.node? a).bind (·.spelling? site)

/-- The references of a list of nodes, in order. -/
def references (g : Graph) (ids : List NodeId) : List (NodeId × Site) :=
  ids.flatMap fun a => ((g.node? a).elim [] Node.references).map (Prod.mk a)

/-- How a reference of a node is reported. -/
def openReference? (g : Graph) (p : NodeId × Site) : Option OpenReference :=
  (g.node? p.1).map (·.openReference p.2)

/-- Whether a site of a node holds a reference that is open. -/
def isOpenAt (g : Graph) (p : NodeId × Site) : Bool := (g.linkAt? p.1 p.2).any Option.isNone

/-- What the reference at a site of a node is found to stand for. -/
def found? (names : Names) (g : Graph) (p : NodeId × Site) : Option NodeId :=
  (g.spelling? p.1 p.2).bind names.resolve?

/-- What linking some references comes to. -/
def reportOn (names : Names) (g : Graph) (ps : List (NodeId × Site)) : LinkReport :=
  ⟨ps.countP fun p => g.isOpenAt p && (g.found? names p).isSome,
    (ps.filter fun p => g.isOpenAt p && (g.found? names p).isNone).filterMap g.openReference?⟩

theorem reportOn_append (names : Names) (g : Graph) (ps qs : List (NodeId × Site)) :
    g.reportOn names (ps ++ qs) = (g.reportOn names ps).append (g.reportOn names qs) := by
  simp [reportOn, LinkReport.append]

/-- What is reported of the references of one node. -/
theorem reportOn_node {g : Graph} {a : NodeId} {n : Node} (h : g.node? a = some n) (names : Names)
    (sites : List Site) : g.reportOn names (sites.map (Prod.mk a)) = n.reportOn names sites := by
  have hopen : ∀ site, g.isOpenAt (a, site) = n.isOpenAt site := fun site =>
    congrArg (Option.any Option.isNone) (linkAt?_eq h site)
  have hfound : ∀ site, g.found? names (a, site) = n.found? names site := fun site => by
    rw [found?, spelling?, h, Option.bind_some, Node.found?]
  have hreference : ∀ site, g.openReference? (a, site) = some (n.openReference site) := fun site => by
    rw [openReference?, h, Option.map_some]
  unfold reportOn Node.reportOn
  rw [List.countP_map, List.filter_map, List.filterMap_map]
  simp only [Function.comp_def, hopen, hfound, hreference, List.filterMap_eq_map']

/-- What is reported of references depends on the nodes that have them alone. -/
theorem reportOn_congr {g h : Graph} {ps : List (NodeId × Site)}
    (hnodes : ∀ p ∈ ps, g.node? p.1 = h.node? p.1) (names : Names) :
    g.reportOn names ps = h.reportOn names ps := by
  have hsame : ∀ p ∈ ps, g.isOpenAt p = h.isOpenAt p ∧ g.found? names p = h.found? names p ∧
      g.openReference? p = h.openReference? p := by
    intro p hp
    simp only [isOpenAt, linkAt?, found?, spelling?, openReference?, hnodes p hp, and_self]
  unfold reportOn
  congr 1
  · exact List.countP_congr fun p hp => by rw [(hsame p hp).1, (hsame p hp).2.1]
  · rw [List.filter_congr fun p hp => by rw [(hsame p hp).1, (hsame p hp).2.1]]
    exact List.filterMap_congr fun p hp => (hsame p (List.mem_of_mem_filter hp)).2.2

/-- **What linking a list of nodes reports** are their references, one after the other. -/
theorem report_link (names : Names) (g : Graph) {ids : List NodeId} (h : ids.Nodup) :
    (g.link names ids).2 = g.reportOn names (g.references ids) := by
  -- the other nodes are reported on after the first was linked, which is not among them
  induction ids generalizing g with
  | nil => rfl
  | cons a ids ih =>
    obtain ⟨ha, hids⟩ := List.nodup_cons.1 h
    have hothers : ∀ b ∈ ids, (g.linkNode names a).1.node? b = g.node? b := by
      intro b hb
      have hne : b ≠ a := fun heq => ha (heq ▸ hb)
      simp [node?_linkNode, hne]
    have hreferences : (g.linkNode names a).1.references ids = g.references ids :=
      List.flatMap_congr fun b hb => by rw [hothers b hb]
    have hrest : (g.linkNode names a).1.reportOn names (g.references ids) =
        g.reportOn names (g.references ids) := by
      refine reportOn_congr (fun p hp => ?_) names
      obtain ⟨b, hb, hp⟩ := List.mem_flatMap.1 hp
      obtain ⟨site, -, rfl⟩ := List.mem_map.1 hp
      exact hothers b hb
    have hfirst : (g.linkNode names a).2 =
        g.reportOn names (((g.node? a).elim [] Node.references).map (Prod.mk a)) := by
      unfold linkNode
      cases hn : g.node? a with
      | none => rfl
      | some n => exact (n.linkReport_eq names).trans (reportOn_node hn names _).symm
    rw [link_cons, ih _ hids, hreferences, hrest, hfirst, ← reportOn_append]
    rfl

/-! ### Linking, and linking again -/

/-- **What the sites of a graph hold after linking**: what they held, or else, if the node is in the
list, what the spelling stands for. -/
theorem linkAt?_link (names : Names) (g : Graph) (ids : List NodeId) (a : NodeId) (site : Site) :
    (g.link names ids).1.linkAt? a site = (g.linkAt? a site).map fun l =>
      l <|> if a ∈ ids then (g.spelling? a site).bind names.resolve? else none := by
  unfold linkAt? spelling?
  rw [node?_link]
  cases g.node? a with
  | none => rfl
  | some n =>
    simp only [Option.map_some, Option.bind_some]
    split
    · exact Node.linkAt?_link names n site
    · cases n.linkAt? site with
      | none => rfl
      | some l => cases l <;> rfl

/-- Linking changes nothing but links. -/
theorem unlinked_link (names : Names) (g : Graph) (ids : List NodeId) :
    (g.link names ids).1.unlinked = g.unlinked := by
  refine congrArg Graph.mk (List.ext_getElem? fun a => ?_)
  rw [List.getElem?_map, List.getElem?_map]
  show ((g.link names ids).1.node? a).map _ = (g.node? a).map _
  rw [node?_link, Option.map_map]
  refine congrArg (Option.map · (g.node? a)) (funext fun n => ?_)
  rw [Function.comp_apply]
  split
  · exact Node.unlinked_link names n
  · rfl

/-- A graph that was linked some number of times, each time with names and nodes of its own. -/
def relinked (g : Graph) (rounds : List (Names × List NodeId)) : Graph :=
  rounds.foldl (fun g (names, ids) => (g.link names ids).1) g

/-- **A link that is set stays as it is**, however often the graph is linked. -/
theorem linkAt?_relinked {g : Graph} {a target : NodeId} {site : Site}
    (h : g.linkAt? a site = some (some target)) (rounds : List (Names × List NodeId)) :
    (g.relinked rounds).linkAt? a site = some (some target) := by
  induction rounds generalizing g with
  | nil => exact h
  | cons round rounds ih =>
    refine ih ?_
    rw [linkAt?_link, h]
    rfl

theorem node?_unlinked (g : Graph) (a : NodeId) :
    g.unlinked.node? a = (g.node? a).map Node.unlinked := List.getElem?_map

/-- Which references there are, how they are spelled and how they are reported does not depend on
what they are linked to. -/
theorem references_unlinked (g : Graph) :
    g.unlinked.references = g.references ∧ g.unlinked.spelling? = g.spelling? ∧
      g.unlinked.openReference? = g.openReference? := by
  refine ⟨funext fun ids => List.flatMap_congr fun a _ => ?_, funext fun a => funext fun site => ?_,
    funext fun p => ?_⟩
  · rw [node?_unlinked]
    cases g.node? a with
    | none => rfl
    | some n => exact congrArg (List.map (Prod.mk a)) n.references_unlinked
  · rw [spelling?, node?_unlinked, spelling?]
    cases g.node? a with
    | none => rfl
    | some n => exact n.spelling?_unlinked site
  · rw [openReference?, node?_unlinked, openReference?]
    cases g.node? p.1 with
    | none => rfl
    | some n => exact congrArg some (congrFun n.openReference_unlinked p.2)

section

variable (names : Names) (g : Graph) (ids : List NodeId)

theorem references_link : (g.link names ids).1.references = g.references ∧
    (g.link names ids).1.spelling? = g.spelling? ∧
    (g.link names ids).1.openReference? = g.openReference? := by
  obtain ⟨hreferences, hspelling, hopen⟩ := g.references_unlinked
  obtain ⟨hreferences', hspelling', hopen'⟩ := (g.link names ids).1.references_unlinked
  rw [unlinked_link] at hreferences' hspelling' hopen'
  exact ⟨hreferences'.symm.trans hreferences, hspelling'.symm.trans hspelling,
    hopen'.symm.trans hopen⟩

/-- **The references of some nodes**: the sites of these nodes that have a spelling. -/
theorem mem_references_iff {g : Graph} {ids : List NodeId} {a : NodeId} {site : Site} :
    (a, site) ∈ g.references ids ↔ a ∈ ids ∧ (g.spelling? a site).isSome := by
  unfold references spelling?
  simp only [List.mem_flatMap, List.mem_map, Prod.mk.injEq]
  constructor
  · rintro ⟨b, hb, s, hs, rfl, rfl⟩
    refine ⟨hb, ?_⟩
    cases hn : g.node? b with
    | none => simp [hn] at hs
    | some n =>
      rw [hn] at hs
      exact Node.mem_references_iff.1 hs
  · rintro ⟨ha, hs⟩
    refine ⟨a, ha, site, ?_, rfl, rfl⟩
    cases hn : g.node? a with
    | none => simp [hn] at hs
    | some n =>
      rw [hn] at hs
      exact Node.mem_references_iff.2 hs

/-- Once nodes are linked, those of their references are open that were open and are not found to
stand for anything. -/
theorem isOpenAt_link {p : NodeId × Site} (hp : p ∈ g.references ids) :
    (g.link names ids).1.isOpenAt p = (g.isOpenAt p && (g.found? names p).isNone) := by
  obtain ⟨a, site⟩ := p
  obtain ⟨ha, -⟩ := mem_references_iff.1 hp
  unfold isOpenAt found?
  rw [linkAt?_link, if_pos ha]
  cases g.linkAt? a site with
  | none => rfl
  | some l => cases l <;> cases (g.spelling? a site).bind names.resolve? <;> rfl

/-- No reference of distinct nodes comes twice. -/
theorem nodup_references {ids : List NodeId} (h : ids.Nodup) : (g.references ids).Nodup := by
  unfold references
  refine List.nodup_flatMap.2 ⟨fun a _ => ?_, h.imp fun {a b} hab => ?_⟩
  · have hsites : ((g.node? a).elim [] Node.references).Nodup := by
      cases g.node? a with
      | none => exact List.nodup_nil
      | some n =>
        refine n.pairwise_references.imp fun {s t} hst => ?_
        rintro rfl
        exact s.not_before_self hst
    exact hsites.map fun s t heq => (Prod.mk.inj heq).2
  · rintro p hp hp'
    obtain ⟨s, -, rfl⟩ := List.mem_map.1 hp
    obtain ⟨t, -, heq⟩ := List.mem_map.1 hp'
    exact hab (Prod.mk.inj heq).1.symm

/-- Linking the same nodes with the same names once more sets nothing, and reports again what has
stayed open. -/
theorem link_link {ids : List NodeId} (h : ids.Nodup) :
    (g.link names ids).1.link names ids =
      ((g.link names ids).1, ⟨0, (g.link names ids).2.unresolved⟩) := by
  obtain ⟨hreferences, hspelling, hreported⟩ := references_link names g ids
  -- two graphs are the same if they are without links and hold the same links
  refine Prod.ext (eq_of_unlinked_of_linkAt? (unlinked_link _ _ _) fun a site => ?_) ?_
  · rw [linkAt?_link, hspelling, linkAt?_link, Option.map_map]
    refine congrArg (Option.map · (g.linkAt? a site)) (funext fun l => ?_)
    rw [Function.comp_apply]
    split <;> cases l <;> cases (g.spelling? a site).bind names.resolve? <;> rfl
  · have hfound : (g.link names ids).1.found? names = g.found? names := by
      funext p
      rw [found?, hspelling, found?]
    rw [report_link names _ h, report_link names g h, hreferences]
    unfold reportOn
    rw [hfound, hreported]
    congr 1
    · -- what is open now has been looked up in vain
      rw [List.countP_eq_zero]
      intro p hp
      rw [isOpenAt_link names g ids hp]
      cases g.found? names p <;> simp
    · refine congrArg _ (List.filter_congr fun p hp => ?_)
      rw [isOpenAt_link names g ids hp]
      cases g.found? names p <;> simp

/-- **What linking distinct nodes does.**  A reference that is open gets what its spelling stands
for, if it stands for anything; no other site gets a link, no link is changed, and neither is
anything else.  The report counts the references that were set, and has those that are open now, each
once and in order.  Linking once more with the same names changes nothing, sets nothing and reports
the same; and linking any number of times, whatever the names and the nodes, changes no link that is
set. -/
theorem link_references {ids : List NodeId} (h : ids.Nodup) :
    let linked := (g.link names ids).1
    let report := (g.link names ids).2
    (∀ spelling target, names.resolve? spelling = some target ↔ spelling ≠ "" ∧
      (names.get? spelling = some target ∨ names.get? spelling = none ∧
        ∃ rest, spelling = "::" ++ rest ∧ names.get? rest = some target)) ∧
    (∀ n : Node, n.references.Pairwise Site.Before) ∧
    ((g.references ids).Nodup ∧ linked.references ids = g.references ids ∧
      ∀ a site, (a, site) ∈ g.references ids ↔ a ∈ ids ∧ (g.spelling? a site).isSome) ∧
    linked.unlinked = g.unlinked ∧
    (∀ a site, linked.linkAt? a site = (g.linkAt? a site).map fun l =>
      l <|> if a ∈ ids then (g.spelling? a site).bind names.resolve? else none) ∧
    report.resolved = (g.references ids).countP (fun p =>
      g.linkAt? p.1 p.2 = some none ∧ linked.linkAt? p.1 p.2 ≠ some none) ∧
    report.unresolved.map some = ((g.references ids).filter fun p =>
      linked.linkAt? p.1 p.2 = some none).map linked.openReference? ∧
    linked.link names ids = (linked, ⟨0, report.unresolved⟩) ∧
    ∀ (rounds : List (Names × List NodeId)) a site target,
      linked.linkAt? a site = some (some target) →
        (linked.relinked rounds).linkAt? a site = some (some target) := by
  intro linked report
  obtain ⟨hreferences, -, hreported⟩ := references_link names g ids
  have hopen : ∀ (g : Graph) p, g.isOpenAt p = decide (g.linkAt? p.1 p.2 = some none) := by
    intro g p
    unfold isOpenAt
    rcases g.linkAt? p.1 p.2 with _ | _ | target <;> rfl
  have hlinked : ∀ p ∈ g.references ids,
      linked.isOpenAt p = (g.isOpenAt p && (g.found? names p).isNone) :=
    fun p => isOpenAt_link names g ids
  refine ⟨fun spelling target => Names.resolve?_eq_some_iff, Node.pairwise_references,
    ⟨nodup_references g h, congrFun hreferences ids, fun a site => mem_references_iff⟩,
    unlinked_link names g ids, linkAt?_link names g ids, ?_, ?_, link_link names g h,
    fun rounds a site target hset => linkAt?_relinked hset rounds⟩
  · show (g.link names ids).2.resolved = _
    rw [report_link names g h]
    refine List.countP_congr fun p hp => ?_
    have hp := hlinked p hp
    rw [hopen] at hp
    rw [decide_eq_true_iff, ← decide_eq_true_iff (p := g.linkAt? p.1 p.2 = some none), ← hopen, ne_eq,
      ← decide_eq_true_iff (p := linked.linkAt? p.1 p.2 = some none), hp]
    cases g.isOpenAt p <;> cases g.found? names p <;> simp
  · show (g.link names ids).2.unresolved.map some = _
    rw [report_link names g h, hreported]
    have hopens : (g.references ids).filter (fun p => g.isOpenAt p && (g.found? names p).isNone) =
        (g.references ids).filter fun p => linked.linkAt? p.1 p.2 = some none :=
      List.filter_congr fun p hp => by rw [← hlinked p hp, hopen]
    show (List.filterMap _ ((g.references ids).filter _)).map some = _
    rw [hopens]
    -- none of them is passed over, as each is a reference of some node
    refine map_some_filterMap fun p hp => ?_
    obtain ⟨-, hp⟩ := mem_references_iff.1 (List.mem_of_mem_filter hp)
    rw [openReference?, Option.isSome_map]
    exact Option.isSome_of_isSome_bind hp

end

/-- A type with a base and a table that refer to other types; one reference is linked, and two are to
types that are not there. -/
def ledger : Graph :=
  let field (name type : String) (kind : Kind Field) (link : Option NodeId) : Field :=
    ⟨name, "", kind, type, .anyone, link⟩
  ⟨[⟨"Entry", .pod, [], [field "old" "Entry" .object (some 1), field "lost" "Lost" .pod none], []⟩,
    ⟨"Ledger", .all, [],
      [field "table" "" (.map true (field "" "::Key" .object none)
        (field "" "" (.vector (field "" "Entry" .pod none)) none)) none],
      [⟨"Gone", none⟩, ⟨"Entry", none⟩]⟩,
    ⟨"Key", .all, [], [], []⟩]⟩

/-- The names of the types of the ledger. -/
def ledgerNames : Names := ⟨[("Entry", 0), ("Ledger", 1), ("Key", 2)]⟩

theorem link_references_ledger :
    [1, 0].Nodup ∧
    (ledger.link ledgerNames [1, 0]).2 =
      ⟨3, [⟨"Ledger", "<base>", "Gone"⟩, ⟨"Entry", "lost", "Lost"⟩]⟩ ∧
    ((ledger.link ledgerNames [1, 0]).1.linkAt? 1 (.field [0, 0]) = some (some 2) ∧
      (ledger.link ledgerNames [1, 0]).1.linkAt? 1 (.field [0, 1, 0]) = some (some 0) ∧
      (ledger.link ledgerNames [1, 0]).1.linkAt? 0 (.field [0]) = some (some 1)) ∧
    (ledger.link ledgerNames [1, 0]).1.link ledgerNames [1, 0] =
      ((ledger.link ledgerNames [1, 0]).1,
        ⟨0, [⟨"Ledger", "<base>", "Gone"⟩, ⟨"Entry", "lost", "Lost"⟩]⟩) := by
  have hids : [1, 0].Nodup := by decide
  have hreport : (ledger.link ledgerNames [1, 0]).2 =
      ⟨3, [⟨"Ledger", "<base>", "Gone"⟩, ⟨"Entry", "lost", "Lost"⟩]⟩ := by decide
  obtain ⟨-, -, -, -, hlinks, -, -, hagain, -⟩ := link_references ledgerNames ledger hids
  rw [hreport] at hagain
  exact ⟨hids, hreport, ⟨hlinks 1 (.field [0, 0]), hlinks 1 (.field [0, 1, 0]), hlinks 0 (.field [0])⟩,
    hagain⟩

end Graph
end Schema
end Marshal
