import Marshal.Proofs.Json.Reading
import Marshal.Proofs.Schema.Forms

/-!
# Handing a node over

A node is handed over as the text of its bundle.  Whoever receives the text reads the bundle from
it and turns that into a graph of their own, which mirrors what can be reached from the node.

Positions and numbers of nodes are machine words.  Where they come from memory they always fit;
of a graph that is only described this has to be said.

## Main definitions

* `Graph.Addressable` — positions and numbers of nodes are machine words.

## Main results

* `read_print_capture` — the text of a bundle is read as that bundle.
* `mirrors_of_handed_over` — what is restored from the text mirrors the graph.
-/

namespace Marshal
namespace Schema

open Data

/-! ### Machine words -/

/-- The nodes, and the fields and bases of each, are counted by machine words. -/
def Graph.Addressable (g : Graph) : Prop :=
  Counts g.size ∧ ∀ n ∈ g.nodes, Counts n.fields.length ∧ Counts n.bases.length

instance (g : Graph) : Decidable g.Addressable := by
  unfold Graph.Addressable
  infer_instance

theorem counts_of_lt {i n : Nat} (h : i < n) (hn : Counts n) : Counts i :=
  Nat.le_trans (Nat.le_of_lt h) hn

theorem Kind.length_children_le {α : Type} (k : Kind α) : k.children.length ≤ 2 := by
  cases k <;> simp [children]

theorem Field.counts_of_at? {path : List Nat} {f e : Field} (h : f.at? path = some e) :
    ∀ i ∈ path, Counts i := by
  induction path generalizing f with
  | nil => exact List.forall_mem_nil _
  | cons i path ih =>
    rw [at?_cons] at h
    obtain ⟨c, hc, h⟩ := Option.bind_eq_some_iff.1 h
    obtain ⟨hi, -⟩ := List.getElem?_eq_some_iff.1 hc
    have hle := f.kind.length_children_le
    have hword : Counts 2 := by decide
    exact List.forall_mem_cons.2 ⟨counts_of_lt hi (Nat.le_trans hle hword), ih h⟩

/-- The sites of a node can be told by machine words. -/
theorem Node.counts_of_linkAt? {n : Node} (hfields : Counts n.fields.length)
    (hbases : Counts n.bases.length) {site : Site} {link : Option NodeId}
    (h : n.linkAt? site = some link) : site.Counts := by
  cases site with
  | base i =>
    obtain ⟨b, hb, -⟩ := Option.map_eq_some_iff.1 h
    exact counts_of_lt (List.getElem?_eq_some_iff.1 hb).1 hbases
  | field path =>
    obtain ⟨e, he, -⟩ := Option.map_eq_some_iff.1 h
    cases path with
    | nil => cases he
    | cons i path =>
      obtain ⟨f, hf, he⟩ := Option.bind_eq_some_iff.1 he
      refine List.forall_mem_cons.2 ⟨?_, Field.counts_of_at? he⟩
      exact counts_of_lt (List.getElem?_eq_some_iff.1 hf).1 hfields

/-! ### The form of a bundle -/

/-- Links are no part of the form of a field. -/
theorem Field.encode_unlinked (f : Field) : f.unlinked.encode = f.encode := by
  induction f using Field.childInduction with
  | step f ih =>
    obtain ⟨name, formattedName, kind, typeName, access, link⟩ := f
    have hkind : encodeKind (mapInside (fun e => { e with link := none }) kind) =
        encodeKind kind := by
      cases kind <;> simp_all [Kind.children, mapInside, encodeKind, unlinked]
    simp only [unlinked, mapAll, encode, hkind]

theorem Node.encode_unlinked (n : Node) : n.unlinked.encode = n.encode := by
  have hfields : n.fields.map (Field.encode ∘ Field.unlinked) = n.fields.map Field.encode :=
    List.map_congr_left fun f _ => f.encode_unlinked
  simp only [encode, unlinked, List.map_map, hfields]
  rfl

namespace Bundle

/-- Links are no part of the form of a bundle, other than in its table. -/
theorem encode_unlinked (b : Bundle) : b.unlinked.encode = b.encode := by
  have hnodes : b.nodes.map (Node.encode ∘ Node.unlinked) = b.nodes.map Node.encode :=
    List.map_congr_left fun n _ => n.encode_unlinked
  simp only [encode, unlinked, List.map_map, hnodes]

theorem plain_encode {b : Bundle}
    (h : ∀ l ∈ b.links, Counts l.holder ∧ l.site.Counts ∧ Counts l.target) : b.encode.Plain := by
  refine .map ?_
  simp only [List.forall_mem_cons]
  refine ⟨.seq (List.forall_mem_map.2 fun n _ => n.plain_encode), .seq ?_, List.forall_mem_nil _⟩
  refine List.forall_mem_map.2 fun l hl => .map ?_
  obtain ⟨hholder, hsite, htarget⟩ := h l hl
  simp only [List.forall_mem_cons]
  exact ⟨.natural hholder, Site.plain_encode hsite, .natural htarget, List.forall_mem_nil _⟩

/-! ### Handing over -/

section

variable {g : Graph} {root : NodeId}

theorem counts_of_mem_links (hg : g.Closed) (hwords : g.Addressable) (hroot : root < g.size)
    {l : BundleLink} (hl : l ∈ (capture g root).links) :
    Counts l.holder ∧ l.site.Counts ∧ Counts l.target := by
  obtain ⟨a, b, ha, hb, hj⟩ := mem_links_capture_iff.1 hl
  have hle := Nat.le_trans (Graph.length_reach_le hg hroot) hwords.1
  obtain ⟨n, hn, hlink⟩ := Option.bind_eq_some_iff.1 hb
  obtain ⟨hfields, hbases⟩ := hwords.2 n (List.mem_of_getElem? hn)
  obtain ⟨hj, -⟩ := List.idxOf?_eq_some_iff.1 hj
  exact ⟨counts_of_lt (List.getElem?_eq_some_iff.1 ha).1 hle,
    Node.counts_of_linkAt? hfields hbases hlink, counts_of_lt hj hle⟩

/-- **The text of the bundle of a node is read as that bundle.** -/
theorem read_print_capture (hg : g.Closed) (hwords : g.Addressable) (hroot : root < g.size)
    (hdepth : (capture g root).encode.depth ≤ Json.deepest) :
    Json.read readBundle (Raw.ofText (Json.print (capture g root).encode)) =
      .ok (capture g root).unlinked :=
  Json.read_print (plain_encode fun _ hl => counts_of_mem_links hg hwords hroot hl) hdepth
    (reads_bundle fun _ hl => (counts_of_mem_links hg hwords hroot hl).2.1)

/-- **A node that is handed over as a text arrives as what it was.**  The text of its bundle is
read and restored without fault; the graph that comes of it mirrors what can be reached from the
node, and the bundle of its root is the bundle that was handed over, as is its text. -/
theorem mirrors_of_handed_over (hg : g.Closed) (hwords : g.Addressable) (hroot : root < g.size)
    (hdepth : (capture g root).encode.depth ≤ Json.deepest) :
    ∃ bundle h number,
      Json.read readBundle (Raw.ofText (Json.print (capture g root).encode)) = .ok bundle ∧
      bundle.restore .empty = .ok (h, 0) ∧ g.Mirrors root h number ∧
      (capture h 0).unlinked = (capture g root).unlinked ∧
      Json.print (capture h 0).encode = Json.print (capture g root).encode := by
  have hsame := capture_copy hg hroot
  refine ⟨_, g.copy root, g.number root, read_print_capture hg hwords hroot hdepth,
    restore_capture hg hroot, Graph.mirrors_copy hg hroot, hsame, ?_⟩
  rw [← encode_unlinked, hsame, encode_unlinked]

/-- Two types that inherit from each other.  The first also refers to itself from within a list,
to the second from within a map, and twice by one name to two nodes; one reference is not
resolved. -/
def knot : Graph :=
  let field (name type : String) (kind : Kind Field) (link : Option NodeId) : Field :=
    ⟨name, "", kind, type, .anyone, link⟩
  ⟨[⟨"A", .all, ["json"],
      [field "self" "" (.vector (field "" "A" .object (some 0))) none,
        field "table" "" (.map true (field "" "" (.scalar .string) none)
          (field "" "B" .object (some 1))) none,
        field "left" "T" .object (some 1), field "right" "T" .object (some 2),
        field "lost" "U" .object none],
      [⟨"B", some 1⟩]⟩,
    ⟨"B", .all, [], [field "back" "A" .object (some 0)], [⟨"A", some 0⟩]⟩,
    ⟨"T", .all, [], [], []⟩]⟩

theorem mirrors_of_knot :
    (knot.Closed ∧ knot.Addressable ∧ 0 < knot.size ∧
      (capture knot 0).encode.depth ≤ Json.deepest) ∧
    ∃ bundle h number,
      Json.read readBundle (Raw.ofText (Json.print (capture knot 0).encode)) = .ok bundle ∧
      bundle.restore .empty = .ok (h, 0) ∧ knot.Mirrors 0 h number ∧
      (capture h 0).unlinked = (capture knot 0).unlinked ∧
      Json.print (capture h 0).encode = Json.print (capture knot 0).encode := by
  have hclosed : knot.Closed := by decide
  have hwords : knot.Addressable := by decide
  have hroot : 0 < knot.size := by decide
  have hdepth : (capture knot 0).encode.depth ≤ Json.deepest := by decide
  exact ⟨⟨hclosed, hwords, hroot, hdepth⟩, mirrors_of_handed_over hclosed hwords hroot hdepth⟩

end

end Bundle
end Schema
end Marshal
