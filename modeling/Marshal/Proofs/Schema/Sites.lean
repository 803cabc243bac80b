import Mathlib.Data.List.Basic
import Marshal.Schema.Site

/-!
# Sites and links

A node is its description together with the links its sites hold.  A path that leads to a field
through positions, the list of all paths, and a change at the end of a path are three ways to walk
through the same containers; each of them is brought to the children of a kind, which is all that
they share.

## Main definitions

* `Field.unlinked`, `Node.unlinked` — a description without its links.
* `Kind.setChild` — a kind with one of its children replaced.

## Main results

* `Field.childInduction` — induction over what is inside a field.
* `Node.mem_sites_iff` — the sites of a node are those at which it holds a link, set or not.
* `Node.eq_of_unlinked_of_linkAt?` — a node is its description and its links.
* `Node.linkSite?_eq_none_iff`, `Node.linkAt?_linkSite?` — what pointing a link changes.
-/

namespace Marshal
namespace Schema

/-- Two lists are equal if their images are and equal images at one place mean equal elements. -/
theorem eq_of_map_eq {α β : Type} {f : α → β} {l l' : List α} (h : l.map f = l'.map f)
    (hf : ∀ (i : Nat) (a b : α), l[i]? = some a → l'[i]? = some b → f a = f b → a = b) :
    l = l' := by
  refine List.ext_getElem? fun i => ?_
  have hi := congrArg (·[i]?) h
  simp only [List.getElem?_map] at hi
  cases hl : l[i]? with
  | none =>
    rw [hl, Option.map_none, eq_comm, Option.map_eq_none_iff] at hi
    exact hi.symm
  | some a =>
    cases hl' : l'[i]? with
    | none => simp [hl, hl'] at hi
    | some b =>
      rw [hl, hl'] at hi
      exact congrArg some (hf i a b hl hl' (Option.some.inj hi))

/-- Putting back what is there changes nothing. -/
theorem set_eq_self {α : Type} {l : List α} {i : Nat} {a : α} (h : l[i]? = some a) :
    l.set i a = l := by
  obtain ⟨hi, rfl⟩ := List.getElem?_eq_some_iff.1 h
  exact List.set_getElem_self hi

/-! ### Children -/

/-- What holds of a field if it holds of all its children holds of every field. -/
@[elab_as_elim]
theorem Field.childInduction {P : Field → Prop}
    (step : ∀ f : Field, (∀ e ∈ f.kind.children, P e) → P f) (f : Field) : P f := by
  have key : ∀ n (f : Field), sizeOf f ≤ n → P f := by
    intro n
    induction n with
    | zero => intro f h; cases f; simp at h
    | succ n ih =>
      intro f h
      refine step f fun e he => ih e ?_
      obtain ⟨_, _, kind, _, _, _⟩ := f
      cases kind <;> simp [Kind.children] at he h <;>
        first
          | (subst he; omega)
          | (rcases he with rfl | rfl <;> omega)
  exact key _ f (Nat.le_refl _)

namespace Kind

variable {α : Type}

/-- A kind with the child at a position replaced. -/
def setChild : Kind α → Nat → α → Kind α
  | .staticArray _, 0, e => .staticArray e
  | .dynamicArray _ v, 0, e => .dynamicArray e v
  | .vector _, 0, e => .vector e
  | .set s _, 0, e => .set s e
  | .map s _ v, 0, e => .map s e v
  | .map s k _, 1, e => .map s k e
  | k, _, _ => k

theorem children_setChild (k : Kind α) (i : Nat) (e : α) :
    (k.setChild i e).children = k.children.set i e := by
  cases k <;> rcases i with _ | _ | i <;> rfl

end Kind

namespace Field

@[simp] theorem kind_mapAll (change : Field → Field) (f : Field) :
    (f.mapAll change).kind = mapInside change f.kind := by
  cases f; rfl

@[simp] theorem link_mapAll (change : Field → Field) (f : Field) :
    (f.mapAll change).link = (change f).link := by
  cases f; rfl

@[simp] theorem children_mapInside (change : Field → Field) (k : Kind Field) :
    (mapInside change k).children = k.children.map (mapAll change) := by
  cases k <;> rfl

theorem at?_nil (f : Field) : f.at? [] = some f := rfl

theorem at?_cons (i : Nat) (path : List Nat) (f : Field) :
    f.at? (i :: path) = f.kind.children[i]?.bind (at? path) := rfl

theorem at?_mapAll (change : Field → Field) (path : List Nat) (f : Field) :
    (f.mapAll change).at? path = (f.at? path).map (mapAll change) := by
  induction path generalizing f with
  | nil => rfl
  | cons i path ih =>
    rw [at?_cons, at?_cons, kind_mapAll, children_mapInside, List.getElem?_map]
    cases f.kind.children[i]? with
    | none => rfl
    | some e => exact ih e

/-! ### The list of all paths -/

theorem paths_eq (path : List Nat) (f : Field) :
    f.paths path = (path, f) ::
      f.kind.children.zipIdx.flatMap fun (e, i) => e.paths (path ++ [i]) := by
  obtain ⟨n, m, k, t, a, l⟩ := f
  cases k <;> simp [paths, pathsInside, Kind.children, List.zipIdx]

/-- The list of paths has every path that leads somewhere, and where it leads. -/
theorem mem_paths_iff {path q : List Nat} {f e : Field} :
    (q, e) ∈ f.paths path ↔ ∃ r, q = path ++ r ∧ f.at? r = some e := by
  induction f using Field.childInduction generalizing path with
  | step f ih =>
    rw [paths_eq, List.mem_cons, List.mem_flatMap]
    constructor
    · rintro (h | ⟨⟨c, i⟩, hc, h⟩)
      · obtain ⟨rfl, rfl⟩ := Prod.mk.inj h
        exact ⟨[], by simp, rfl⟩
      · have hget : f.kind.children[i]? = some c := List.mk_mem_zipIdx_iff_getElem?.1 hc
        obtain ⟨r, rfl, hr⟩ := (ih c (List.mem_of_getElem? hget)).1 h
        refine ⟨i :: r, by simp, ?_⟩
        rw [at?_cons, hget]
        exact hr
    · rintro ⟨r, rfl, hr⟩
      cases r with
      | nil =>
        obtain rfl := Option.some.inj hr
        exact Or.inl (by simp)
      | cons i r =>
        rw [at?_cons, Option.bind_eq_some_iff] at hr
        obtain ⟨c, hget, hr⟩ := hr
        refine Or.inr ⟨(c, i), List.mk_mem_zipIdx_iff_getElem?.2 hget, ?_⟩
        exact (ih c (List.mem_of_getElem? hget)).2 ⟨r, by simp, hr⟩

theorem paths_mapAll (change : Field → Field) (path : List Nat) (f : Field) :
    (f.mapAll change).paths path = (f.paths path).map fun (q, e) => (q, e.mapAll change) := by
  induction f using Field.childInduction generalizing path with
  | step f ih =>
    rw [paths_eq, paths_eq path f, kind_mapAll, children_mapInside, List.map_cons, List.map_flatMap,
      List.zipIdx_map, List.flatMap_map]
    congr 1
    refine List.flatMap_congr ?_
    rintro ⟨c, i⟩ hc
    exact ih c (List.mem_of_getElem? (List.mk_mem_zipIdx_iff_getElem?.1 hc)) (path ++ [i])

/-! ### Descriptions without links -/

/-- A field and all that is inside it without links. -/
def unlinked (f : Field) : Field := f.mapAll fun e => { e with link := none }

/-- A kind determines, up to its children, what it looks like without links. -/
theorem kind_of_mapInside_eq {change : Field → Field} {k k' : Kind Field}
    (h : mapInside change k = mapInside change k') :
    k.children.map (mapAll change) = k'.children.map (mapAll change) ∧
      (k.children = k'.children → k = k') := by
  refine ⟨?_, ?_⟩
  · rw [← children_mapInside, ← children_mapInside, h]
  · cases k <;> cases k' <;> simp_all [mapInside, Kind.children]

/-- A field is its description and the links in it. -/
theorem eq_of_unlinked_of_at? {f f' : Field} (h : f.unlinked = f'.unlinked)
    (hl : ∀ path, (f.at? path).map (·.link) = (f'.at? path).map (·.link)) : f = f' := by
  induction f using Field.childInduction generalizing f' with
  | step f ih =>
    obtain ⟨n, m, k, t, a, l⟩ := f
    obtain ⟨n', m', k', t', a', l'⟩ := f'
    have hlink : l = l' := by simpa [at?_nil] using hl []
    simp only [unlinked, mapAll, mk.injEq, and_true] at h
    obtain ⟨rfl, rfl, hk, rfl, rfl⟩ := h
    obtain ⟨hmap, hkind⟩ := kind_of_mapInside_eq hk
    have hch : k.children = k'.children := by
      refine eq_of_map_eq hmap fun i c c' hc hc' hcc => ?_
      refine ih c (List.mem_of_getElem? hc) hcc fun path => ?_
      have := hl (i :: path)
      rw [at?_cons, at?_cons] at this
      simpa only [hc, hc', Option.bind_some] using this
    rw [hlink, hkind hch]

theorem unlinked_mapAll (change : Option NodeId → Option NodeId) (f : Field) :
    (f.mapAll fun e => { e with link := change e.link }).unlinked = f.unlinked := by
  induction f using Field.childInduction with
  | step f ih =>
    obtain ⟨n, m, k, t, a, l⟩ := f
    simp only [unlinked] at ih
    cases k <;> simp_all [unlinked, mapAll, mapInside, Kind.children]

/-! ### Changing the field at the end of a path -/

theorem changeAt?_nil (change : Field → Field) (f : Field) :
    f.changeAt? change [] = some (change f) := by
  rw [changeAt?]

theorem changeAt?_cons (change : Field → Field) (i : Nat) (path : List Nat) (f : Field) :
    f.changeAt? change (i :: path) =
      (f.kind.children[i]?.bind (changeAt? change path)).map fun e =>
        { f with kind := f.kind.setChild i e } := by
  obtain ⟨n, m, k, t, a, l⟩ := f
  cases k <;> rcases i with _ | _ | i <;> rfl

theorem changeAt?_eq_none_iff {change : Field → Field} {path : List Nat} {f : Field} :
    f.changeAt? change path = none ↔ f.at? path = none := by
  induction path generalizing f with
  | nil => simp [changeAt?_nil, at?_nil]
  | cons i path ih =>
    rw [changeAt?_cons, at?_cons, Option.map_eq_none_iff]
    cases f.kind.children[i]? with
    | none => simp
    | some e => exact ih

theorem unlinked_linkTo (f : Field) (target : NodeId) :
    (f.linkTo target).unlinked = f.unlinked := by
  cases f; rfl

theorem mapInside_setChild (change : Field → Field) (k : Kind Field) (i : Nat) (e : Field) :
    mapInside change (k.setChild i e) = (mapInside change k).setChild i (e.mapAll change) := by
  cases k <;> rcases i with _ | _ | i <;> rfl

theorem setChild_self {α : Type} {k : Kind α} {i : Nat} {e : α} (h : k.children[i]? = some e) :
    k.setChild i e = k := by
  cases k <;> rcases i with _ | _ | i <;> simp_all [Kind.children, Kind.setChild]

theorem unlinked_changeAt? {target : NodeId} {path : List Nat} {f f' : Field}
    (h : f.changeAt? (·.linkTo target) path = some f') : f'.unlinked = f.unlinked := by
  induction path generalizing f f' with
  | nil =>
    rw [changeAt?_nil] at h
    obtain rfl := Option.some.inj h
    exact unlinked_linkTo f target
  | cons i path ih =>
    rw [changeAt?_cons, Option.map_eq_some_iff] at h
    obtain ⟨e', he', rfl⟩ := h
    obtain ⟨e, hget, he⟩ := Option.bind_eq_some_iff.1 he'
    have hk : mapInside (fun e => { e with link := none }) (f.kind.setChild i e') =
        mapInside (fun e => { e with link := none }) f.kind := by
      rw [mapInside_setChild]
      refine setChild_self ?_
      rw [children_mapInside, List.getElem?_map, hget]
      exact congrArg some (ih he).symm
    obtain ⟨n, m, k, t, a, l⟩ := f
    simp only [unlinked, mapAll, hk]

/-- Only the field at the end of the path gets another link. -/
theorem at?_changeAt? {target : NodeId} {path : List Nat} {f f' : Field}
    (h : f.changeAt? (·.linkTo target) path = some f') (q : List Nat) :
    (f'.at? q).map (·.link) =
      if q = path then (f.at? q).map fun e => Schema.linkTo e.link target
      else (f.at? q).map (·.link) := by
  induction path generalizing f f' q with
  | nil =>
    rw [changeAt?_nil] at h
    obtain rfl := Option.some.inj h
    cases q with
    | nil => rfl
    | cons i q => rfl
  | cons i path ih =>
    rw [changeAt?_cons, Option.map_eq_some_iff] at h
    obtain ⟨e', he', rfl⟩ := h
    obtain ⟨e, hget, he⟩ := Option.bind_eq_some_iff.1 he'
    cases q with
    | nil => rfl
    | cons j q =>
      rw [at?_cons, at?_cons, Kind.children_setChild]
      by_cases hij : j = i
      · subst hij
        have hlt : j < f.kind.children.length := (List.getElem?_eq_some_iff.1 hget).1
        rw [List.getElem?_set_self hlt, hget]
        simpa using ih he q
      · have hne : ¬ (j :: q = i :: path) := fun hc => hij (List.cons.inj hc).1
        rw [List.getElem?_set_ne (Ne.symm hij), if_neg hne]

end Field

/-! ### Nodes -/

namespace Node

/-- A node without links. -/
def unlinked (n : Node) : Node :=
  { n with
    fields := n.fields.map Field.unlinked
    bases := n.bases.map fun b => { b with link := none } }

/-- **The sites of a node are those at which it holds a link, set or not.** -/
theorem mem_sites_iff {n : Node} {site : Site} {link : Option NodeId} :
    (site, link) ∈ n.sites ↔ n.linkAt? site = some link := by
  unfold sites
  rw [List.mem_append, List.mem_map, List.mem_flatMap]
  cases site with
  | base i =>
    constructor
    · rintro (⟨⟨b, j⟩, hb, h⟩ | ⟨⟨f, j⟩, -, h⟩)
      · obtain ⟨hj, rfl⟩ := Prod.mk.inj h
        obtain rfl := Site.base.inj hj
        rw [linkAt?, List.mk_mem_zipIdx_iff_getElem?.1 hb, Option.map_some]
      · simp at h
    · intro h
      rw [linkAt?, Option.map_eq_some_iff] at h
      obtain ⟨b, hb, rfl⟩ := h
      exact Or.inl ⟨(b, i), List.mk_mem_zipIdx_iff_getElem?.2 hb, rfl⟩
  | field path =>
    constructor
    · rintro (⟨⟨b, j⟩, -, h⟩ | ⟨⟨f, j⟩, hf, h⟩)
      · simp at h
      · obtain ⟨⟨q, e⟩, he, h⟩ := List.mem_map.1 h
        obtain ⟨hq, rfl⟩ := Prod.mk.inj h
        obtain rfl := Site.field.inj hq
        obtain ⟨r, rfl, hr⟩ := Field.mem_paths_iff.1 he
        have hget : n.fields[j]? = some f := List.mk_mem_zipIdx_iff_getElem?.1 hf
        simp only [linkAt?, fieldAt?, List.cons_append, List.nil_append, hget, Option.bind_some, hr,
          Option.map_some]
    · intro h
      rw [linkAt?, Option.map_eq_some_iff] at h
      obtain ⟨e, he, rfl⟩ := h
      cases path with
      | nil => exact absurd he (by simp [fieldAt?])
      | cons i path =>
        rw [fieldAt?, Option.bind_eq_some_iff] at he
        obtain ⟨f, hf, he⟩ := he
        refine Or.inr ⟨(f, i), List.mk_mem_zipIdx_iff_getElem?.2 hf, ?_⟩
        exact List.mem_map.2 ⟨(i :: path, e), Field.mem_paths_iff.2 ⟨path, rfl, he⟩, rfl⟩

/-- A node with every link changed, set or not. -/
def relink (n : Node) (change : Option NodeId → Option NodeId) : Node :=
  { n with
    bases := n.bases.map fun b => { b with link := change b.link }
    fields := n.fields.map (Field.mapAll fun f => { f with link := change f.link }) }

theorem unlinked_eq_relink (n : Node) : n.unlinked = n.relink fun _ => none := rfl

theorem mapLinks_eq_relink (n : Node) (change : NodeId → NodeId) :
    n.mapLinks change = n.relink (Option.map change) := rfl

theorem sites_relink (n : Node) (change : Option NodeId → Option NodeId) :
    (n.relink change).sites = n.sites.map fun (s, l) => (s, change l) := by
  unfold sites relink
  simp only [List.map_append, List.map_map, List.zipIdx_map, List.map_flatMap, List.flatMap_map]
  congr 1
  refine List.flatMap_congr fun p _ => ?_
  simp only [Prod.map, id, Field.paths_mapAll, List.map_map]
  refine List.map_congr_left fun q _ => ?_
  simp

@[simp] theorem linkAt?_relink (n : Node) (change : Option NodeId → Option NodeId) (site : Site) :
    (n.relink change).linkAt? site = (n.linkAt? site).map change := by
  cases site with
  | base i => simp [linkAt?, relink, Function.comp_def]
  | field path =>
    cases path with
    | nil => rfl
    | cons i path =>
      simp only [linkAt?, fieldAt?, relink, List.getElem?_map]
      cases n.fields[i]? with
      | none => rfl
      | some f => simp [Field.at?_mapAll, Function.comp_def]

@[simp] theorem unlinked_relink (n : Node) (change : Option NodeId → Option NodeId) :
    (n.relink change).unlinked = n.unlinked := by
  unfold unlinked relink
  simp only [List.map_map]
  congr 1
  · exact List.map_congr_left fun f _ => Field.unlinked_mapAll change f

/-- **A node is its description and its links.** -/
theorem eq_of_unlinked_of_linkAt? {n m : Node} (h : n.unlinked = m.unlinked)
    (hl : ∀ site, n.linkAt? site = m.linkAt? site) : n = m := by
  obtain ⟨name, policy, formats, fields, bases⟩ := n
  obtain ⟨name', policy', formats', fields', bases'⟩ := m
  simp only [unlinked, mk.injEq] at h
  obtain ⟨rfl, rfl, rfl, hf, hb⟩ := h
  have hfields : fields = fields' := by
    refine eq_of_map_eq hf fun i f f' hc hc' hff => ?_
    refine Field.eq_of_unlinked_of_at? hff fun path => ?_
    simpa only [linkAt?, fieldAt?, hc, hc', Option.bind_some] using hl (.field (i :: path))
  have hbases : bases = bases' := by
    refine eq_of_map_eq hb fun i b b' hc hc' hbb => ?_
    have hlink : b.link = b'.link := by
      simpa only [linkAt?, hc, hc', Option.map_some, Option.some.injEq] using hl (.base i)
    obtain ⟨x, l⟩ := b
    obtain ⟨x', l'⟩ := b'
    obtain rfl : x = x' := (Base.mk.inj hbb).1
    exact congrArg _ hlink
  rw [hfields, hbases]

/-! ### Pointing a link at a node -/

theorem linkSite?_base (n : Node) (i : Nat) (target : NodeId) :
    n.linkSite? (.base i) target =
      n.bases[i]?.map fun b => { n with bases := n.bases.set i (b.linkTo target) } := rfl

theorem linkSite?_field (n : Node) (i : Nat) (path : List Nat) (target : NodeId) :
    n.linkSite? (.field (i :: path)) target =
      (n.fields[i]?.bind (Field.changeAt? (·.linkTo target) path)).map fun f =>
        { n with fields := n.fields.set i f } := by
  rw [linkSite?]
  cases n.fields[i]? with
  | none => rfl
  | some f =>
    simp only [bind, Option.bind_some]
    cases f.changeAt? (·.linkTo target) path <;> rfl

theorem linkSite?_eq_none_iff {n : Node} {site : Site} {target : NodeId} :
    n.linkSite? site target = none ↔ n.linkAt? site = none := by
  cases site with
  | base i => rw [linkSite?_base, linkAt?, Option.map_eq_none_iff, Option.map_eq_none_iff]
  | field path =>
    cases path with
    | nil => simp [linkSite?, linkAt?, fieldAt?]
    | cons i path =>
      rw [linkSite?_field, linkAt?, fieldAt?, Option.map_eq_none_iff, Option.map_eq_none_iff]
      cases n.fields[i]? with
      | none => simp
      | some f => exact Field.changeAt?_eq_none_iff

theorem unlinked_linkSite? {n m : Node} {site : Site} {target : NodeId}
    (h : n.linkSite? site target = some m) : m.unlinked = n.unlinked := by
  cases site with
  | base i =>
    rw [linkSite?_base, Option.map_eq_some_iff] at h
    obtain ⟨b, hb, rfl⟩ := h
    unfold unlinked
    congr 1
    rw [List.map_set]
    refine set_eq_self ?_
    rw [List.getElem?_map, hb]
    rfl
  | field path =>
    cases path with
    | nil => exact absurd h (by simp [linkSite?])
    | cons i path =>
      rw [linkSite?_field, Option.map_eq_some_iff] at h
      obtain ⟨f', hf', rfl⟩ := h
      obtain ⟨f, hget, hf⟩ := Option.bind_eq_some_iff.1 hf'
      unfold unlinked
      congr 1
      rw [List.map_set, Field.unlinked_changeAt? hf]
      refine set_eq_self ?_
      rw [List.getElem?_map, hget]
      rfl

/-- **Pointing a link changes what its site holds, and nothing else.** -/
theorem linkAt?_linkSite? {n m : Node} {site : Site} {target : NodeId}
    (h : n.linkSite? site target = some m) (s : Site) :
    m.linkAt? s =
      if s = site then (n.linkAt? s).map fun l => linkTo l target else n.linkAt? s := by
  cases site with
  | base i =>
    rw [linkSite?_base, Option.map_eq_some_iff] at h
    obtain ⟨b, hb, rfl⟩ := h
    cases s with
    | field path => rw [if_neg (by simp)]; rfl
    | base j =>
      by_cases hij : j = i
      · subst hij
        have hlt : j < n.bases.length := (List.getElem?_eq_some_iff.1 hb).1
        simp only [linkAt?, List.getElem?_set_self hlt, hb, if_true, Option.map_some]
        rfl
      · have hne : ¬ (Site.base j = Site.base i) := fun hc => hij (Site.base.inj hc)
        simp only [linkAt?, List.getElem?_set_ne (Ne.symm hij), if_neg hne]
  | field path =>
    cases path with
    | nil => exact absurd h (by simp [linkSite?])
    | cons i path =>
      rw [linkSite?_field, Option.map_eq_some_iff] at h
      obtain ⟨f', hf', rfl⟩ := h
      obtain ⟨f, hget, hf⟩ := Option.bind_eq_some_iff.1 hf'
      cases s with
      | base j => rw [if_neg (by simp)]; rfl
      | field q =>
        cases q with
        | nil => rw [if_neg (by simp)]; rfl
        | cons j q =>
          by_cases hij : j = i
          · subst hij
            have hlt : j < n.fields.length := (List.getElem?_eq_some_iff.1 hget).1
            have hq := Field.at?_changeAt? hf q
            simp only [linkAt?, fieldAt?, List.getElem?_set_self hlt, hget, Option.bind_some, hq]
            simp [Function.comp_def]
          · have hne : ¬ (Site.field (j :: q) = Site.field (i :: path)) := fun hc =>
              hij (List.cons.inj (Site.field.inj hc)).1
            simp only [linkAt?, fieldAt?, List.getElem?_set_ne (Ne.symm hij), if_neg hne]

end Node
end Schema
end Marshal
