import Mathlib.Data.List.Forall2
import Marshal.Emit.Routines
import Marshal.Proofs.Emit.Plans
import Marshal.Proofs.Schema.Copy

/-!
# What code depends on

The code for a node depends on what its links unfold to, and not on which graph it is in, which
numbers its nodes have or whether two links lead to one node or to two that look the same.  Two
nodes are **alike** if their descriptions agree, but for their links, which lead to nodes that are
related; a relation is a **bisimulation** if it relates only nodes that are alike.

## Main definitions

* `Kind.Alike`, `Field.Alike`, `Node.Alike` — descriptions that agree but for their links.
* `Graph.Bisimulation` — a relation between the nodes of two graphs.

## Main results

* `inherited_alike`, `plan_alike` — fields and plans of nodes that are alike.
* `generate_alike` — nodes that are alike have the same code, or none for the same reason.
* `Graph.Mirrors.bisimulation` — a graph that mirrors another is related to it.
-/

namespace Marshal

open Schema

/-! ### Descriptions that agree -/

namespace Schema

/-- Two kinds that agree, where what is inside them is related. -/
inductive Kind.Alike {α β : Type} (r : α → β → Prop) : Kind α → Kind β → Prop where
  | scalar (s : Scalar) : Alike r (.scalar s) (.scalar s)
  | object : Alike r .object .object
  | pod : Alike r .pod .pod
  | staticArray {e : α} {e' : β} (element : r e e') : Alike r (.staticArray e) (.staticArray e')
  | dynamicArray {e : α} {e' : β} (v : String) (element : r e e') :
      Alike r (.dynamicArray e v) (.dynamicArray e' v)
  | vector {e : α} {e' : β} (element : r e e') : Alike r (.vector e) (.vector e')
  | set {e : α} {e' : β} (sorted : Bool) (element : r e e') :
      Alike r (.set sorted e) (.set sorted e')
  | map {k v : α} {k' v' : β} (sorted : Bool) (key : r k k') (value : r v v') :
      Alike r (.map sorted k v) (.map sorted k' v')

namespace Kind.Alike

variable {α β : Type} {r : α → β → Prop} {k' : Kind β}

theorem name_eq {k : Kind α} (h : Alike r k k') : k.name = k'.name := by
  cases h with
  | set sorted => cases sorted <;> rfl
  | map sorted => cases sorted <;> rfl
  | _ => rfl

theorem scalar_left {s : Scalar} (h : Alike r (.scalar s) k') : k' = .scalar s := by
  cases h with
  | scalar => rfl

theorem scalar_right {k : Kind α} {s : Scalar} (h : Alike r k (.scalar s)) : k = .scalar s := by
  cases h with
  | scalar => rfl

theorem object_left (h : Alike r .object k') : k' = .object := by
  cases h with
  | object => rfl

theorem pod_left (h : Alike r .pod k') : k' = .pod := by
  cases h with
  | pod => rfl

theorem pod_right {k : Kind α} (h : Alike r k .pod) : k = .pod := by
  cases h with
  | pod => rfl

theorem staticArray_left {e : α} (h : Alike r (.staticArray e) k') :
    ∃ e', k' = .staticArray e' ∧ r e e' := by
  cases h with
  | staticArray he => exact ⟨_, rfl, he⟩

theorem dynamicArray_left {e : α} {v : String} (h : Alike r (.dynamicArray e v) k') :
    ∃ e', k' = .dynamicArray e' v ∧ r e e' := by
  cases h with
  | dynamicArray _ he => exact ⟨_, rfl, he⟩

theorem vector_left {e : α} (h : Alike r (.vector e) k') : ∃ e', k' = .vector e' ∧ r e e' := by
  cases h with
  | vector he => exact ⟨_, rfl, he⟩

theorem set_left {sorted : Bool} {e : α} (h : Alike r (.set sorted e) k') :
    ∃ e', k' = .set sorted e' ∧ r e e' := by
  cases h with
  | set _ he => exact ⟨_, rfl, he⟩

theorem map_left {sorted : Bool} {k v : α} (h : Alike r (.map sorted k v) k') :
    ∃ l w, k' = .map sorted l w ∧ r k l ∧ r v w := by
  cases h with
  | map _ hk hv => exact ⟨_, _, rfl, hk, hv⟩

end Kind.Alike

/-- Two fields that agree in all that code is written from, where their links and those inside
them lead to related nodes. -/
inductive Field.Alike (r : NodeId → NodeId → Prop) : Field → Field → Prop where
  | intro {f f' : Field} (name : f.name = f'.name)
      (serializedName : f.serializedName = f'.serializedName) (typeName : f.typeName = f'.typeName)
      (access : f.access = f'.access) (link : Option.Rel r f.link f'.link)
      (kind : Kind.Alike (Alike r) f.kind f'.kind) : Alike r f f'

/-- Two nodes that agree in all that code is written from, where their links lead to related
nodes. -/
structure Node.Alike (r : NodeId → NodeId → Prop) (n n' : Node) : Prop where
  name : n.name = n'.name
  isPod : n.isPod = n'.isPod
  fields : List.Forall₂ (Field.Alike r) n.fields n'.fields
  bases : List.Forall₂ (fun b b' => Option.Rel r b.link b'.link) n.bases n'.bases

/-- A relation between the nodes of two graphs that relates only nodes that are alike. -/
def Graph.Bisimulation (g h : Graph) (r : NodeId → NodeId → Prop) : Prop :=
  ∀ a b, r a b → Option.Rel (Node.Alike r) (g.node? a) (h.node? b)

theorem Graph.Bisimulation.node {g h : Graph} {r : NodeId → NodeId → Prop}
    (hr : g.Bisimulation h r) {l l' : Option NodeId} (hl : Option.Rel r l l') :
    Option.Rel (Node.Alike r) (l.bind g.node?) (l'.bind h.node?) := by
  cases hl with
  | some hab => exact hr _ _ hab
  | none => exact .none

end Schema

/-! ### Plans of fields that agree -/

namespace Emit

section

variable {g h : Graph} {r : NodeId → NodeId → Prop} (hr : g.Bisimulation h r)

include hr

/-- Bases that lead to related nodes add fields that are alike. -/
theorem inherited_alike (way : List String) (bs : List Base) :
    ∀ bs' : List Base, List.Forall₂ (fun b b' => Option.Rel r b.link b'.link) bs bs' →
      List.Forall₂ (Field.Alike r) (inherited g way bs) (inherited h way bs') := by
  induction way, bs using inherited.induct (g := g) with
  | case1 way =>
    intro bs' hbs
    cases hbs
    rw [inherited_nil, inherited_nil]
    exact .nil
  | case2 way b bs ihnode ihrest =>
    intro bs' hbs
    obtain ⟨b', bs'', hb, hrest, rfl⟩ := List.forall₂_cons_left_iff.1 hbs
    rw [inherited_cons, inherited_cons]
    refine List.rel_append ?_ (ihrest bs'' hrest)
    have hnode := hr.node hb
    cases hn : b.link.bind g.node? with
    | none =>
      rw [hn] at hnode
      cases hn' : b'.link.bind h.node? with
      | none =>
        rw [basePart_of_none hn, basePart_of_none hn']
        exact .nil
      | some n' => rw [hn'] at hnode; cases hnode
    | some n =>
      rw [hn] at hnode
      cases hn' : b'.link.bind h.node? with
      | none => rw [hn'] at hnode; cases hnode
      | some n' =>
        rw [hn'] at hnode
        cases hnode with
        | some halike =>
          -- alike nodes have one name, so the walk is cut short at both or at neither
          by_cases hw : n.name ∈ way
          · rw [basePart_of_mem hn hw, basePart_of_mem hn' (halike.name ▸ hw)]
            exact .nil
          · rw [basePart_of_notMem hn hw, basePart_of_notMem hn' (halike.name ▸ hw), ← halike.name]
            refine List.rel_append (ihnode n hn hw _ halike.bases) ?_
            refine List.rel_filter ?_ halike.fields
            rintro f f' ⟨-, -, -, haccess, -, -⟩
            simp only [haccess]

/-- The fields that are written for nodes that are alike are alike. -/
theorem flatten_alike {n n' : Node} (hn : n.Alike r n') :
    List.Forall₂ (Field.Alike r) (flatten g n) (flatten h n') := by
  unfold flatten
  rw [← hn.name]
  exact List.rel_append (inherited_alike hr _ _ _ hn.bases) hn.fields

/-- What plain records that are related add, given what their fields add. -/
theorem podPart_alike {top : String} {pods owner : List String} {outer : String} {f f' : Field}
    (htype : f.typeName = f'.typeName) (hlink : Option.Rel r f.link f'.link)
    (ih : ∀ n, f.link.bind g.node? = some n → n.name ∉ pods → ∀ fs',
      List.Forall₂ (Field.Alike r) (flatten g n) fs' →
        planMembers g top (n.name :: pods) owner outer (flatten g n) =
          planMembers h top (n.name :: pods) owner outer fs') :
    podPart g top pods owner outer f = podPart h top pods owner outer f' := by
  have hnode := hr.node hlink
  cases hn : f.link.bind g.node? with
  | none =>
    rw [hn] at hnode
    cases hn' : f'.link.bind h.node? with
    | none => rw [podPart_of_none g top hn, podPart_of_none h top hn', htype]
    | some n' => rw [hn'] at hnode; cases hnode
  | some n =>
    rw [hn] at hnode
    cases hn' : f'.link.bind h.node? with
    | none => rw [hn'] at hnode; cases hnode
    | some n' =>
      rw [hn'] at hnode
      cases hnode with
      | some halike =>
        by_cases hw : n.name ∈ pods
        · rw [podPart_of_mem g top hn hw, podPart_of_mem h top hn' (halike.name ▸ hw), halike.name]
        · rw [podPart_of_notMem g top hn hw, podPart_of_notMem h top hn' (halike.name ▸ hw),
            ← halike.name]
          exact ih n hn hw _ (flatten_alike hr halike)

/-- Fields that are alike add the same members, or are stopped by the same obstacle. -/
theorem plan_alike (top : String) :
    (∀ pods owner outer fs, ∀ fs', List.Forall₂ (Field.Alike r) fs fs' →
      planMembers g top pods owner outer fs = planMembers h top pods owner outer fs') ∧
    (∀ pods owner outer f, ∀ f', Field.Alike r f f' →
      planMember g top pods owner outer f = planMember h top pods owner outer f') ∧
    (∀ pods direct f, ∀ f', Field.Alike r f f' →
      planShape g top pods direct f = planShape h top pods direct f') := by
  refine planMembers.mutual_induct g
    (fun pods owner outer fs => ∀ fs', List.Forall₂ (Field.Alike r) fs fs' →
      planMembers g top pods owner outer fs = planMembers h top pods owner outer fs')
    (fun pods owner outer f => ∀ f', Field.Alike r f f' →
      planMember g top pods owner outer f = planMember h top pods owner outer f')
    (fun pods direct f => ∀ f', Field.Alike r f f' →
      planShape g top pods direct f = planShape h top pods direct f')
    ?_ ?_ ?_ ?_ ?_ ?_ ?_ ?_ ?_ ?_ ?_ ?_ ?_ ?_ ?_ ?_ ?_ ?_
  -- members, field by field
  · intro pods owner outer fs' hfs
    cases hfs
    rw [planMembers_nil, planMembers_nil]
  · intro pods owner outer f fs ihf ihfs fs' hfs
    obtain ⟨f', fs'', hf, hrest, rfl⟩ := List.forall₂_cons_left_iff.1 hfs
    rw [planMembers_cons, planMembers_cons, ihf f' hf, ihfs fs'' hrest]
  -- a plain record that is a member
  · rintro pods owner outer f hk hn f' ⟨hname, hserialized, htype, -, hlink, hkind⟩
    rw [hk] at hkind
    rw [planMember_pod g top hk, planMember_pod h top hkind.pod_left, hname, hserialized]
    exact podPart_alike hr htype hlink fun n hn' => absurd (hn.symm.trans hn') (by simp)
  · rintro pods owner outer f hk n hn hw f' ⟨hname, hserialized, htype, -, hlink, hkind⟩
    rw [hk] at hkind
    rw [planMember_pod g top hk, planMember_pod h top hkind.pod_left, hname, hserialized]
    refine podPart_alike hr htype hlink fun m hm hwm => ?_
    obtain rfl : n = m := Option.some.inj (hn.symm.trans hm)
    exact absurd hw hwm
  · rintro pods owner outer f hk n hn hw ih f' ⟨hname, hserialized, htype, -, hlink, hkind⟩
    rw [hk] at hkind
    rw [planMember_pod g top hk, planMember_pod h top hkind.pod_left, ← hname, ← hserialized]
    refine podPart_alike hr htype hlink fun m hm _ => ?_
    obtain rfl : n = m := Option.some.inj (hn.symm.trans hm)
    exact ih
  · intro pods owner outer f hk ih f' hf
    have hshape := ih f' hf
    obtain ⟨hname, hserialized, -, -, -, hkind⟩ := hf
    have hk' : f'.kind ≠ .pod := fun hpod => hk (hpod ▸ hkind).pod_right
    rw [planMember_of_ne_pod g top hk, planMember_of_ne_pod h top hk', hshape, hname, hserialized]
  -- values without parts
  · rintro pods direct f s hk f' ⟨-, -, htype, -, -, hkind⟩
    rw [hk] at hkind
    rw [planShape_scalar g top pods direct hk,
      planShape_scalar h top pods direct hkind.scalar_left, htype]
  · rintro pods direct f hk f' ⟨-, -, -, -, -, hkind⟩
    rw [hk] at hkind
    rw [planShape_object g top pods direct hk, planShape_object h top pods direct hkind.object_left]
  -- a plain record inside a container
  · rintro pods direct f hk hn f' ⟨-, -, htype, -, hlink, hkind⟩
    rw [hk] at hkind
    rw [planShape_pod g top pods direct hk, planShape_pod h top pods direct hkind.pod_left]
    rw [podPart_alike hr htype hlink fun n hn' => absurd (hn.symm.trans hn') (by simp)]
  · rintro pods direct f hk n hn hw f' ⟨-, -, htype, -, hlink, hkind⟩
    rw [hk] at hkind
    rw [planShape_pod g top pods direct hk, planShape_pod h top pods direct hkind.pod_left]
    rw [podPart_alike hr htype hlink fun m hm hwm => ?_]
    obtain rfl : n = m := Option.some.inj (hn.symm.trans hm)
    exact absurd hw hwm
  · rintro pods direct f hk n hn hw ih f' ⟨-, -, htype, -, hlink, hkind⟩
    rw [hk] at hkind
    rw [planShape_pod g top pods direct hk, planShape_pod h top pods direct hkind.pod_left]
    rw [podPart_alike hr htype hlink fun m hm _ => ?_]
    obtain rfl : n = m := Option.some.inj (hn.symm.trans hm)
    exact ih
  -- containers
  · rintro pods direct f e hk ih f' ⟨-, -, -, -, -, hkind⟩
    rw [hk] at hkind
    obtain ⟨e', hk', he⟩ := hkind.staticArray_left
    rw [planShape_staticArray g top pods direct hk, planShape_staticArray h top pods direct hk',
      ih e' he]
  · rintro pods f e v hk ih f' ⟨-, -, -, -, -, hkind⟩
    rw [hk] at hkind
    obtain ⟨e', hk', he⟩ := hkind.dynamicArray_left
    rw [planShape_dynamicArray g top pods true hk, planShape_dynamicArray h top pods true hk',
      ih e' he]
  · rintro pods direct f e v hk hdirect f' ⟨-, -, -, -, -, hkind⟩
    rw [hk] at hkind
    obtain ⟨e', hk', -⟩ := hkind.dynamicArray_left
    rw [planShape_dynamicArray g top pods direct hk, planShape_dynamicArray h top pods direct hk',
      if_neg hdirect, if_neg hdirect]
  · rintro pods direct f e hk ih f' ⟨-, -, -, -, -, hkind⟩
    rw [hk] at hkind
    obtain ⟨e', hk', he⟩ := hkind.vector_left
    rw [planShape_vector g top pods direct hk, planShape_vector h top pods direct hk', ih e' he]
  · rintro pods direct f sorted e hk ih f' ⟨-, -, -, -, -, hkind⟩
    rw [hk] at hkind
    obtain ⟨e', hk', he⟩ := hkind.set_left
    rw [planShape_set g top pods direct hk, planShape_set h top pods direct hk', ih e' he]
  · rintro pods direct f sorted k v hk s hs ih f' ⟨-, -, -, -, -, hkind⟩
    rw [hk] at hkind
    obtain ⟨k', v', hk', ⟨-, -, -, -, -, hkey⟩, hv⟩ := hkind.map_left
    rw [hs] at hkey
    rw [planShape_map g top pods direct hk hs,
      planShape_map h top pods direct hk' hkey.scalar_left, ih v' hv]
  · rintro pods direct f sorted k v hk hs f' ⟨-, -, -, -, -, hkind⟩
    rw [hk] at hkind
    obtain ⟨k', v', hk', ⟨-, -, -, -, -, hkey⟩, -⟩ := hkind.map_left
    have hs' : ∀ s, k'.kind ≠ .scalar s := fun s hs' => hs s (hs' ▸ hkey).scalar_right
    rw [planShape_map_of_ne_scalar g top pods direct hk hs,
      planShape_map_of_ne_scalar h top pods direct hk' hs', hkey.name_eq]

theorem plan_eq_of_alike {fs fs' : List Field} (hfs : List.Forall₂ (Field.Alike r) fs fs') :
    plan g fs = plan h fs' := by
  have hmembers : fs.mapM (fun f => planMember g f.serializedName [] [] "" f) =
      fs'.mapM fun f => planMember h f.serializedName [] [] "" f := by
    induction hfs with
    | nil => rfl
    | @cons f f' fs fs' hf _ ih =>
      have hone := (plan_alike hr f.serializedName).2.1 [] [] "" f f' hf
      obtain ⟨-, hserialized, -, -, -, -⟩ := hf
      rw [List.mapM_cons, List.mapM_cons, ih, hone, hserialized]
  rw [plan, plan, hmembers]

/-- **Nodes that are alike have the same code**, or none for the same reason. -/
theorem generate_alike {n n' : Node} (hn : n.Alike r n') : generate g n = generate h n' := by
  rw [generate, generate, plan_eq_of_alike hr (flatten_alike hr hn), hn.name, hn.isPod]

end

end Emit

/-! ### Graphs that mirror each other -/

namespace Schema

/-- Fields with the same description are alike if the links at the same places are related. -/
theorem Field.alike_of_unlinked {r : NodeId → NodeId → Prop} {f f' : Field}
    (h : f.unlinked = f'.unlinked)
    (hl : ∀ path e e', f.at? path = some e → f'.at? path = some e' → Option.Rel r e.link e'.link) :
    f.Alike r f' := by
  induction f using Field.childInduction generalizing f' with
  | step f ih =>
    obtain ⟨n, m, k, t, a, l⟩ := f
    obtain ⟨n', m', k', t', a', l'⟩ := f'
    simp only [unlinked, mapAll, mk.injEq, and_true] at h
    obtain ⟨rfl, rfl, hk, rfl, rfl⟩ := h
    have hchild : ∀ (i : Nat) (e e' : Field), k.children[i]? = some e → k'.children[i]? = some e' →
        e.unlinked = e'.unlinked → e.Alike r e' := by
      intro i e e' he he' hu
      refine ih e (List.mem_of_getElem? he) hu fun path d d' hd hd' => hl (i :: path) d d' ?_ ?_
      · rw [at?_cons, he, Option.bind_some, hd]
      · rw [at?_cons, he', Option.bind_some, hd']
    refine .intro rfl rfl rfl rfl (hl [] _ _ rfl rfl) ?_
    cases k <;> cases k' <;> simp only [mapInside, reduceCtorEq, Kind.scalar.injEq,
      Kind.staticArray.injEq, Kind.dynamicArray.injEq, Kind.vector.injEq, Kind.set.injEq,
      Kind.map.injEq] at hk
    case scalar.scalar => subst hk; exact .scalar _
    case object.object => exact .object
    case pod.pod => exact .pod
    case staticArray.staticArray => exact .staticArray (hchild 0 _ _ rfl rfl hk)
    case dynamicArray.dynamicArray =>
      obtain ⟨he, rfl⟩ := hk
      exact .dynamicArray _ (hchild 0 _ _ rfl rfl he)
    case vector.vector => exact .vector (hchild 0 _ _ rfl rfl hk)
    case set.set =>
      obtain ⟨rfl, he⟩ := hk
      exact .set _ (hchild 0 _ _ rfl rfl he)
    case map.map =>
      obtain ⟨rfl, he, hv⟩ := hk
      exact .map _ (hchild 0 _ _ rfl rfl he) (hchild 1 _ _ rfl rfl hv)

/-- Lists are related if their images are equal and equal images at one place mean that. -/
theorem forall₂_of_map_eq {α β : Type} {f : α → β} {r : α → α → Prop} {l l' : List α}
    (h : l.map f = l'.map f)
    (hr : ∀ (i : Nat) (a b : α), l[i]? = some a → l'[i]? = some b → f a = f b → r a b) :
    List.Forall₂ r l l' := by
  induction l generalizing l' with
  | nil =>
    rw [List.map_nil, eq_comm, List.map_eq_nil_iff] at h
    rw [h]
    exact .nil
  | cons a l ih =>
    cases l' with
    | nil => cases h
    | cons b l' =>
      obtain ⟨hab, hrest⟩ := List.cons.inj h
      exact .cons (hr 0 a b rfl rfl hab) (ih hrest fun i c d hc hd => hr (i + 1) c d hc hd)

/-- Nodes with the same description are alike if the links of the same sites are related. -/
theorem Node.alike_of_unlinked {r : NodeId → NodeId → Prop} {n n' : Node}
    (h : n.unlinked = n'.unlinked)
    (hl : ∀ site l l', n.linkAt? site = some l → n'.linkAt? site = some l' → Option.Rel r l l') :
    n.Alike r n' := by
  simp only [unlinked, mk.injEq] at h
  obtain ⟨hname, hpolicy, -, hfields, hbases⟩ := h
  refine ⟨hname, by rw [isPod, isPod, hpolicy], ?_, ?_⟩
  · refine forall₂_of_map_eq hfields fun i f f' hf hf' hu => ?_
    refine Field.alike_of_unlinked hu fun path e e' he he' => hl (.field (i :: path)) _ _ ?_ ?_
    · simp [linkAt?, fieldAt?, hf, he]
    · simp [linkAt?, fieldAt?, hf', he']
  · refine forall₂_of_map_eq hbases fun i b b' hb hb' _ => hl (.base i) _ _ ?_ ?_
    · simp [linkAt?, hb]
    · simp [linkAt?, hb']

/-- A link is related to itself if what it leads to is. -/
theorem related_self {r : NodeId → NodeId → Prop} {l : Option NodeId}
    (h : ∀ b, l = some b → r b b) : Option.Rel r l l := by
  cases l with
  | none => exact .none
  | some b => exact .some (h b rfl)

/-- A node is alike itself if the nodes that it refers to are related to themselves. -/
theorem Node.alike_self {r : NodeId → NodeId → Prop} {n : Node}
    (h : ∀ site b, n.linkAt? site = some (some b) → r b b) : n.Alike r n := by
  refine Node.alike_of_unlinked rfl fun site l l' hl hl' => ?_
  obtain rfl := Option.some.inj (hl.symm.trans hl')
  exact related_self fun b hb => h site b (hb ▸ hl)

/-- **A graph that mirrors another is related to it**: what can be reached to what stands for
it. -/
theorem Graph.Mirrors.bisimulation {g h : Graph} {root : NodeId} {number : NodeId → NodeId}
    (hm : g.Mirrors root h number) :
    g.Bisimulation h fun a b => g.Reaches root a ∧ b = number a := by
  rintro a b ⟨ha, rfl⟩
  have hcontents := hm.contents a ha
  cases hn : g.node? a with
  | none =>
    rw [hn, Option.map_none, Option.map_eq_none_iff] at hcontents
    rw [hcontents]
    exact .none
  | some n =>
    rw [hn, Option.map_some, Option.map_eq_some_iff] at hcontents
    obtain ⟨n', hn', hu⟩ := hcontents
    rw [hn']
    refine .some (Node.alike_of_unlinked hu.symm fun site l l' hl hl' => ?_)
    have hlink := hm.links a ha site
    rw [linkAt?_eq hn, linkAt?_eq hn', hl, hl', Option.map_some] at hlink
    rw [Option.some.inj hlink]
    cases l with
    | none => exact .none
    | some c =>
      have hc : c ∈ g.targets a := Bundle.mem_targets_of_linkAt? ((linkAt?_eq hn site).trans hl)
      exact .some ⟨ha.step hc, rfl⟩

end Schema
end Marshal
