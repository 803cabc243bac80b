import Marshal.Proofs.Schema.Renumbered

/-!
# Linking under other numbers

Linking sees spellings and names.  If two lists of names agree on the spellings in a graph, up to
the numbers that another graph has for its nodes, then linking carries an embedding along, and both
graphs report the same; what else is linked in the larger one makes no difference.

## Main definitions

* `Node.Agrees`, `Graph.Agrees` — spellings that stand for the same nodes.

## Main results

* `Node.link_mapLinks`, `Node.linkReport_mapLinks` — linking a renumbered node.
* `Store.link_eq` — linking a store is linking a list of nodes.
* `Graph.Embeds.link_map`, `Graph.Embeds.link_apart` — linking where a graph embeds in another.
-/

namespace Marshal
namespace Schema

/-! ### Fields -/

namespace Field

theorem descendants_eq (f : Field) :
    f.descendants = f :: f.kind.children.flatMap descendants := by
  obtain ⟨n, m, k, t, a, l⟩ := f
  cases k <;> simp [descendants, inside, Kind.children]

theorem mem_descendants_iff {f e : Field} : e ∈ f.descendants ↔ ∃ path, f.at? path = some e := by
  induction f using Field.childInduction with
  | step f ih =>
    rw [descendants_eq, List.mem_cons, List.mem_flatMap]
    constructor
    · rintro (rfl | ⟨c, hc, he⟩)
      · exact ⟨[], rfl⟩
      · obtain ⟨i, hi⟩ := List.mem_iff_getElem?.1 hc
        obtain ⟨path, hpath⟩ := (ih c hc).1 he
        exact ⟨i :: path, by rw [at?_cons, hi, Option.bind_some, hpath]⟩
    · rintro ⟨path, hpath⟩
      cases path with
      | nil => exact .inl (Option.some.inj hpath).symm
      | cons i path =>
        obtain ⟨c, hc, hpath⟩ := Option.bind_eq_some_iff.1 hpath
        exact .inr ⟨c, List.mem_of_getElem? hc, (ih c (List.mem_of_getElem? hc)).2 ⟨path, hpath⟩⟩

theorem descendants_mapAll (change : Field → Field) (f : Field) :
    (f.mapAll change).descendants = f.descendants.map (mapAll change) := by
  induction f using Field.childInduction with
  | step f ih =>
    rw [descendants_eq, descendants_eq f, kind_mapAll, children_mapInside, List.map_cons,
      List.map_flatMap, List.flatMap_map]
    exact congrArg _ (List.flatMap_congr ih)

/-- A field with every link in it changed. -/
def mapLinks (f : Field) (move : NodeId → NodeId) : Field :=
  f.mapAll fun e => { e with link := e.link.map move }

@[simp] theorem typeName_mapLinks (f : Field) (move : NodeId → NodeId) :
    (f.mapLinks move).typeName = f.typeName := by
  cases f; rfl

@[simp] theorem name_mapLinks (f : Field) (move : NodeId → NodeId) :
    (f.mapLinks move).name = f.name := by
  cases f; rfl

@[simp] theorem isOpen_mapLinks (f : Field) (move : NodeId → NodeId) :
    (f.mapLinks move).isOpen = f.isOpen := by
  obtain ⟨n, m, k, t, a, l⟩ := f
  cases k <;> cases l <;> rfl

/-- **Linking a renumbered field does the same**, if the spellings in it stand for the same. -/
theorem linkReport_mapLinks {names names' : Names} {move : NodeId → NodeId} {f : Field}
    (h : ∀ e ∈ f.descendants, e.kind.isRecord →
      names'.resolve? e.typeName = (names.resolve? e.typeName).map move) (owner field : String) :
    (f.mapLinks move).linkReport names' owner field = f.linkReport names owner field := by
  have hopen : ∀ e ∈ f.descendants.filter isOpen,
      names'.resolve? e.typeName = (names.resolve? e.typeName).map move := by
    intro e he
    obtain ⟨he, hrecord⟩ := List.mem_filter.1 he
    exact h e he (Bool.and_eq_true_iff.1 hrecord).1
  have hopens : (f.mapLinks move).descendants.filter isOpen =
      (f.descendants.filter isOpen).map (mapLinks · move) := by
    rw [mapLinks, descendants_mapAll, List.filter_map]
    exact congrArg _ (List.filter_congr fun e _ => isOpen_mapLinks e move)
  unfold linkReport
  rw [hopens]
  generalize f.descendants.filter isOpen = opens at hopen
  have hfound : (opens.map (mapLinks · move)).filter
        (fun e => (names'.resolve? e.typeName).isSome) =
      (opens.filter fun e => (names.resolve? e.typeName).isSome).map (mapLinks · move) := by
    rw [List.filter_map]
    exact congrArg _ (List.filter_congr fun e he => by simp [hopen e he])
  have hlost : (opens.map (mapLinks · move)).filter (fun e => (names'.resolve? e.typeName).isNone) =
      (opens.filter fun e => (names.resolve? e.typeName).isNone).map (mapLinks · move) := by
    rw [List.filter_map]
    exact congrArg _ (List.filter_congr fun e he => by simp [hopen e he])
  simp only [hfound, hlost, List.length_map, List.map_map]
  exact congrArg _ (List.map_congr_left fun e _ => by simp)

end Field

/-! ### Nodes -/

namespace Node

theorem mapLinks_eq (n : Node) (move : NodeId → NodeId) :
    n.mapLinks move = { n with
      bases := n.bases.map fun b => { b with link := b.link.map move }
      fields := n.fields.map (Field.mapLinks · move) } := rfl

/-- The spellings of a node stand for the same nodes, under other numbers. -/
def Agrees (move : NodeId → NodeId) (names names' : Names) (n : Node) : Prop :=
  ∀ site spelling, n.spelling? site = some spelling →
    names'.resolve? spelling = (names.resolve? spelling).map move

variable {move : NodeId → NodeId} {names names' : Names} {n : Node}

/-- **Linking and renumbering** can be done in either order. -/
theorem link_mapLinks (h : n.Agrees move names names') :
    (n.mapLinks move).link names' = (n.link names).mapLinks move := by
  refine eq_of_unlinked_of_linkAt? (by simp) fun site => ?_
  rw [linkAt?_link, linkAt?_mapLinks, linkAt?_mapLinks, linkAt?_link, spelling?_mapLinks]
  have hfound : (n.spelling? site).bind names'.resolve? =
      ((n.spelling? site).bind names.resolve?).map move := by
    cases hs : n.spelling? site with
    | none => rfl
    | some spelling => exact h site spelling hs
  rw [hfound, Option.map_map, Option.map_map]
  refine congrArg (Option.map · (n.linkAt? site)) (funext fun l => ?_)
  cases l <;> rfl

theorem linkReport_mapLinks (h : n.Agrees move names names') :
    (n.mapLinks move).linkReport names' = n.linkReport names := by
  have hbases : (n.mapLinks move).bases.map (Base.linkReport names' n.name) =
      n.bases.map (Base.linkReport names n.name) := by
    rw [mapLinks_eq, List.map_map]
    refine List.map_congr_left fun b hb => ?_
    obtain ⟨i, hi⟩ := List.mem_iff_getElem?.1 hb
    have hname := h (.base i) b.name (by rw [spelling?, hi, Option.map_some])
    obtain ⟨name, l⟩ := b
    cases l <;> simp_all [Base.linkReport]
  have hfields : (n.mapLinks move).fields.map (fun f => f.linkReport names' n.name f.name) =
      n.fields.map fun f => f.linkReport names n.name f.name := by
    rw [mapLinks_eq, List.map_map]
    refine List.map_congr_left fun f hf => ?_
    obtain ⟨i, hi⟩ := List.mem_iff_getElem?.1 hf
    rw [Function.comp_apply, Field.name_mapLinks]
    refine Field.linkReport_mapLinks (fun e he hrecord => ?_) n.name f.name
    obtain ⟨path, hpath⟩ := Field.mem_descendants_iff.1 he
    refine h (.field (i :: path)) e.typeName ?_
    rw [spelling?, fieldAt?, hi, Option.bind_some, hpath, Option.bind_some, if_pos hrecord]
  show ((n.mapLinks move).bases.map _ ++ (n.mapLinks move).fields.map _).foldl _ _ = _
  rw [linkReport, ← hbases, ← hfields]
  rfl

end Node

/-! ### Reports -/

namespace LinkReport

theorem empty_append (r : LinkReport) : empty.append r = r := by
  simp [append, empty]

theorem append_empty (r : LinkReport) : r.append empty = r := by
  simp [append, empty]

theorem append_assoc (r s t : LinkReport) : (r.append s).append t = r.append (s.append t) := by
  simp [append, Nat.add_assoc]

end LinkReport

/-! ### Linking lists of nodes -/

namespace Graph

@[simp] theorem size_linkNode (names : Names) (g : Graph) (a : NodeId) :
    (g.linkNode names a).1.size = g.size := by
  unfold linkNode
  split <;> simp

theorem foldl_linkNode (names : Names) (ids : List NodeId) (g : Graph) (r : LinkReport) :
    ids.foldl (fun (g, report) id =>
      let (g, r) := g.linkNode names id
      (g, LinkReport.append report r)) (g, r) =
      ((g.link names ids).1, r.append (g.link names ids).2) := by
  induction ids generalizing g r with
  | nil => exact congrArg (Prod.mk g) r.append_empty.symm
  | cons id ids ih =>
    have hstep : g.link names (id :: ids) = _ := ih (g.linkNode names id).1 _
    refine (ih (g.linkNode names id).1 _).trans ?_
    rw [hstep, LinkReport.empty_append, LinkReport.append_assoc]

theorem link_append (names : Names) (g : Graph) (as bs : List NodeId) :
    g.link names (as ++ bs) =
      (((g.link names as).1.link names bs).1,
        (g.link names as).2.append ((g.link names as).1.link names bs).2) := by
  rw [link, List.foldl_append]
  exact foldl_linkNode names bs _ _

theorem link_cons (names : Names) (g : Graph) (a : NodeId) (as : List NodeId) :
    g.link names (a :: as) =
      (((g.linkNode names a).1.link names as).1,
        (g.linkNode names a).2.append ((g.linkNode names a).1.link names as).2) := by
  have hone : g.link names [a] = g.linkNode names a :=
    congrArg (Prod.mk _) (LinkReport.empty_append _)
  rw [← List.singleton_append, link_append, hone]

end Graph

/-- Linking a store is linking the nodes of its trees, one tree after another. -/
theorem Store.link_eq (s : Store) :
    s.link = ({ s with graph := (s.graph.link s.names (s.trees.flatMap (·.ids))).1 },
      (s.graph.link s.names (s.trees.flatMap (·.ids))).2) := by
  have key : ∀ (ts : List Tree) (g : Graph) (r : LinkReport),
      ts.foldl (fun (g, report) t =>
        let (g, r) := Graph.link s.names g t.ids
        (g, LinkReport.append report r)) (g, r) =
      ((g.link s.names (ts.flatMap (·.ids))).1,
        r.append (g.link s.names (ts.flatMap (·.ids))).2) := by
    intro ts
    induction ts with
    | nil => exact fun g r => congrArg (Prod.mk g) r.append_empty.symm
    | cons t ts ih =>
      intro g r
      rw [List.foldl_cons, List.flatMap_cons, Graph.link_append]
      exact (ih _ _).trans (congrArg (Prod.mk _) (LinkReport.append_assoc _ _ _))
  have hall := key s.trees s.graph .empty
  rw [LinkReport.empty_append] at hall
  unfold Store.link
  rw [hall]

/-! ### Linking under other numbers -/

namespace Graph

/-- All spellings in a graph stand for the same nodes, under other numbers. -/
def Agrees (move : NodeId → NodeId) (names names' : Names) (g : Graph) : Prop :=
  ∀ a n, g.node? a = some n → n.Agrees move names names'

variable {move : NodeId → NodeId} {names names' : Names} {g h : Graph}

theorem Agrees.linkNode (hn : g.Agrees move names names') (a : NodeId) :
    (g.linkNode names a).1.Agrees move names names' := by
  intro b m hm
  rw [node?_linkNode, Option.map_eq_some_iff] at hm
  obtain ⟨n, hb, rfl⟩ := hm
  intro site spelling hspelling
  refine hn b n hb site spelling ?_
  rw [← hspelling]
  split
  · exact (Node.spelling?_eq_of_unlinked (Node.unlinked_link names n) site).symm
  · rfl

namespace Embeds

theorem linkNode (he : Embeds move g h) (hn : g.Agrees move names names') (a : NodeId) :
    Embeds move (g.linkNode names a).1 (h.linkNode names' (move a)).1 ∧
      (h.linkNode names' (move a)).2 = (g.linkNode names a).2 := by
  constructor
  · refine ⟨he.injective, fun i => by simpa using he.move_size i, fun b => ?_⟩
    rw [node?_linkNode, node?_linkNode, he.node?, Option.map_map, Option.map_map]
    cases hb : g.node? b with
    | none => rfl
    | some n =>
      refine congrArg some ?_
      simp only [Function.comp_apply, he.injective.eq_iff]
      split
      · exact Node.link_mapLinks (hn b n hb)
      · rfl
  · have hnode := he.node? a
    unfold Graph.linkNode
    cases ha : g.node? a with
    | none =>
      rw [ha, Option.map_none] at hnode
      rw [hnode]
    | some n =>
      rw [ha, Option.map_some] at hnode
      rw [hnode]
      exact Node.linkReport_mapLinks (hn a n ha)

/-- **Linking nodes carries an embedding along**, and comes to the same. -/
theorem link_map (he : Embeds move g h) (hn : g.Agrees move names names') (ids : List NodeId) :
    Embeds move (g.link names ids).1 (h.link names' (ids.map move)).1 ∧
      (g.link names ids).1.Agrees move names names' ∧
      (h.link names' (ids.map move)).2 = (g.link names ids).2 := by
  induction ids generalizing g h with
  | nil => exact ⟨he, hn, rfl⟩
  | cons a ids ih =>
    obtain ⟨hstep, hreport⟩ := he.linkNode hn a
    obtain ⟨hrest, hagree, hreports⟩ := ih hstep (hn.linkNode a)
    rw [List.map_cons, link_cons, link_cons, hreport, hreports]
    exact ⟨hrest, hagree, rfl⟩

/-- **Linking other nodes makes no difference.** -/
theorem link_apart (he : Embeds move g h) (names' : Names) {ids : List NodeId}
    (hids : ∀ a ∈ ids, ∀ b, move b ≠ a) :
    Embeds move g (h.link names' ids).1 := by
  refine ⟨he.injective, fun i => by rw [size_link, he.move_size], fun b => ?_⟩
  have hnot : move b ∉ ids := fun hb => hids _ hb b rfl
  rw [node?_link, he.node?, Option.map_map]
  simp only [if_neg hnot]
  rfl

/-- **Linking other nodes in between** adds what is reported of them, and changes nothing else. -/
theorem link_between (he : Embeds move g h) (hn : g.Agrees move names names') (as bs : List NodeId)
    {ids : List NodeId} (hids : ∀ a ∈ ids, ∀ b, move b ≠ a) :
    Embeds move (g.link names (as ++ bs)).1
        (h.link names' (as.map move ++ (ids ++ bs.map move))).1 ∧
      ∃ r₁ r r₂ : LinkReport, (g.link names (as ++ bs)).2 = r₁.append r₂ ∧
        (h.link names' (as.map move ++ (ids ++ bs.map move))).2 = r₁.append (r.append r₂) ∧
        (ids = [] → r = .empty) := by
  obtain ⟨hfirst, hagree, hreport⟩ := he.link_map hn as
  obtain ⟨hlast, -, hreport'⟩ := (hfirst.link_apart names' hids).link_map hagree bs
  simp only [link_append]
  refine ⟨hlast, _, ((h.link names' (as.map move)).1.link names' ids).2, _, rfl, ?_, ?_⟩
  · rw [hreport, hreport']
  · rintro rfl
    rfl

end Embeds
end Graph

end Schema
end Marshal
