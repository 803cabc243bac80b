import Marshal.Proofs.Emit.Depth
import Mathlib.Data.List.Pairwise
import Mathlib.Data.List.Permutation
import Mathlib.Logic.Relation

/-!
# Ways up to a base

A type gets the fields of a base once for each way up to it.  A way names, on each level, which of
the bases is taken; no name is met twice on it.  So the fields of a type are all different ones
exactly when nothing that is inherited from with a field for its heirs can be reached in two ways.
What is written for a type is written field by field, and a field that comes twice is written twice.

## Main definitions

* `FieldId` — a field of one particular node.
* `Climbs` — a way up from bases to a node.
* `ascents` — all ways up, in the order in which the fields are added.
* `flattenIds` — which fields are written for a node.

## Main results

* `map_field?_flattenIds` — these are the fields that are written.
* `climbs_iff`, `nodup_ascents` — all ways up are listed, each once.
* `flatten_no_repeats_iff` — when no field is written twice, and that the code follows the fields.
-/

namespace Marshal

namespace Schema

/-- A field of one particular node, by its position in it. -/
structure FieldId where
  /-- The node. -/
  node : NodeId
  /-- The position. -/
  position : Nat
  deriving DecidableEq, Repr

/-- The field meant. -/
def Graph.field? (g : Graph) (o : FieldId) : Option Field :=
  (g.node? o.node).bind (·.fields[o.position]?)

/-- A node inherits from another one. -/
def Graph.BaseOf (g : Graph) (id target : NodeId) : Prop :=
  ∃ n, g.node? id = some n ∧ ∃ b ∈ n.bases, b.link = some target

/-- No node that is inherited from, however far above, inherits from itself. -/
def Graph.AcyclicAbove (g : Graph) (root : NodeId) : Prop :=
  ∀ id, Relation.ReflTransGen g.BaseOf root id → ¬ Relation.TransGen g.BaseOf id id

/-- The fields of a node that pass a test, in order. -/
def Graph.fieldIds (g : Graph) (id : NodeId) (keep : Field → Bool) : List FieldId :=
  match g.node? id with
  | none => []
  | some n => (n.fields.zipIdx.filter fun fi => keep fi.1).map fun fi => ⟨id, fi.2⟩

section

variable {g : Graph} {id : NodeId} {keep : Field → Bool}

theorem Graph.fieldIds_of_node {n : Node} (hn : g.node? id = some n) :
    g.fieldIds id keep =
      (n.fields.zipIdx.filter fun fi => keep fi.1).map fun fi => ⟨id, fi.2⟩ := by
  simp only [fieldIds, hn]

theorem Graph.map_field?_fieldIds {n : Node} (hn : g.node? id = some n) :
    (g.fieldIds id keep).map g.field? = (n.fields.filter keep).map some := by
  have hfield : ∀ fi ∈ n.fields.zipIdx.filter fun fi => keep fi.1,
      g.field? ⟨id, fi.2⟩ = some fi.1 := by
    rintro ⟨f, i⟩ hfi
    have hi : n.fields[i]? = some f :=
      List.mk_mem_zipIdx_iff_getElem?.1 (List.mem_filter.1 hfi).1
    rw [field?, hn, Option.bind_some, hi]
  have hfields : n.fields.filter keep = (n.fields.zipIdx.filter fun fi => keep fi.1).map (·.1) :=
    calc n.fields.filter keep
      _ = (n.fields.zipIdx.map (·.1)).filter keep := by rw [List.zipIdx_map_fst]
      _ = (n.fields.zipIdx.filter fun fi => keep fi.1).map (·.1) := List.filter_map
  rw [fieldIds_of_node hn, hfields, List.map_map, List.map_map]
  exact List.map_congr_left hfield

theorem Graph.nodup_fieldIds : (g.fieldIds id keep).Nodup := by
  unfold fieldIds
  split
  · exact List.nodup_nil
  · next n hn =>
    have hpositions : (n.fields.zipIdx.map (·.2)).Nodup := by
      rw [List.zipIdx_map_snd]
      exact List.nodup_range'
    have hkept : ((n.fields.zipIdx.filter fun fi => keep fi.1).map (·.2)).Nodup :=
      hpositions.sublist (List.filter_sublist.map _)
    refine List.Nodup.of_map (·.position) ?_
    rw [List.map_map]
    exact hkept

theorem Graph.mem_fieldIds {o : FieldId} :
    o ∈ g.fieldIds id keep ↔ o.node = id ∧ ∃ f, g.field? o = some f ∧ keep f = true := by
  obtain ⟨node, i⟩ := o
  unfold fieldIds
  constructor
  · intro ho
    split at ho
    · cases ho
    · next n hn =>
      obtain ⟨⟨f, j⟩, hfj, ho⟩ := List.mem_map.1 ho
      obtain ⟨rfl, rfl⟩ := FieldId.mk.inj ho
      obtain ⟨hmem, hf⟩ := List.mem_filter.1 hfj
      refine ⟨rfl, f, ?_, hf⟩
      rw [field?, hn, Option.bind_some]
      exact List.mk_mem_zipIdx_iff_getElem?.1 hmem
  · rintro ⟨rfl, f, hf, hkeep⟩
    obtain ⟨n, hn, hi⟩ := Option.bind_eq_some_iff.1 hf
    simp only [hn]
    exact List.mem_map.2
      ⟨(f, i), List.mem_filter.2 ⟨List.mk_mem_zipIdx_iff_getElem?.2 hi, hkeep⟩, rfl⟩

end

end Schema

namespace Emit

open Schema

/-! ### Ways up -/

/-- A way up from bases to a node: `steps` has the position of the base that is taken, level by
level.  A base is only taken if its name is not on `way` yet, and then it is. -/
inductive Climbs (g : Graph) : List String → List Base → List Nat → NodeId → Prop where
  | base {way : List String} {bases : List Base} {k : Nat} {b : Base} {id : NodeId} {n : Node}
      (hb : bases[k]? = some b) (hlink : b.link = some id) (hn : g.node? id = some n)
      (hw : n.name ∉ way) : Climbs g way bases [k] id
  | above {way : List String} {bases : List Base} {k : Nat} {b : Base} {id : NodeId} {n : Node}
      {steps : List Nat} {top : NodeId} (hb : bases[k]? = some b) (hlink : b.link = some id)
      (hn : g.node? id = some n) (hw : n.name ∉ way)
      (habove : Climbs g (n.name :: way) n.bases steps top) : Climbs g way bases (k :: steps) top

/-- A way up, and where it ends. -/
structure Ascent where
  /-- Which base is taken, level by level. -/
  steps : List Nat
  /-- The node at the end. -/
  top : NodeId
  deriving DecidableEq, Repr

/-- A way up that starts one level further down. -/
def Ascent.under (k : Nat) (a : Ascent) : Ascent := ⟨k :: a.steps, a.top⟩

/-- The ways up from bases that are given with their positions, each base after those above it; the
walk is that of `inherited`. -/
def ascents (g : Graph) (way : List String) : List (Base × Nat) → List Ascent
  | [] => []
  | (b, k) :: bs =>
      (match b.link with
        | none => []
        | some id =>
            match _hn : g.node? id with
            | none => []
            | some n =>
                if _hw : n.name ∈ way then []
                else (ascents g (n.name :: way) n.bases.zipIdx).map (·.under k) ++ [⟨[k], id⟩]) ++
      ascents g way bs
termination_by bases => ((fresh g way).length, bases.length)
decreasing_by
  · exact Prod.Lex.left _ _ (fresh_lt _hn _hw)
  · exact Prod.Lex.right _ (Nat.lt_succ_self _)

/-- Which fields bases add. -/
def inheritedIds (g : Graph) (way : List String) (bases : List (Base × Nat)) : List FieldId :=
  (ascents g way bases).flatMap fun a => g.fieldIds a.top (·.access ≠ .owner)

/-- Which fields are written for a node. -/
def flattenIds (g : Graph) (root : NodeId) (n : Node) : List FieldId :=
  inheritedIds g [n.name] n.bases.zipIdx ++ g.fieldIds root fun _ => true

/-! ### Listing the ways up -/

/-- The ways up that start with one base. -/
def ascentsFrom (g : Graph) (way : List String) (b : Base) (k : Nat) : List Ascent :=
  match b.link with
  | none => []
  | some id =>
      match g.node? id with
      | none => []
      | some n =>
          if n.name ∈ way then []
          else (ascents g (n.name :: way) n.bases.zipIdx).map (·.under k) ++ [⟨[k], id⟩]

section

variable {g : Graph} {way : List String} {b : Base} {k : Nat}

theorem ascents_nil : ascents g way [] = [] := by
  rw [ascents]

theorem ascents_cons {bs : List (Base × Nat)} :
    ascents g way ((b, k) :: bs) = ascentsFrom g way b k ++ ascents g way bs := by
  rw [ascents, ascentsFrom]
  congr 1
  cases b.link with
  | none => rfl
  | some id =>
    dsimp only
    split
    · next hn => simp only [hn]
    · next n hn =>
      by_cases hw : n.name ∈ way
      · simp only [hn, dif_pos hw, if_pos hw]
      · simp only [hn, dif_neg hw, if_neg hw]

theorem ascentsFrom_of_none (h : b.link.bind g.node? = none) : ascentsFrom g way b k = [] := by
  unfold ascentsFrom
  split
  · rfl
  · next id hid =>
    rw [hid, Option.bind_some] at h
    simp only [h]

theorem ascentsFrom_of_mem {n : Node} (h : b.link.bind g.node? = some n) (hw : n.name ∈ way) :
    ascentsFrom g way b k = [] := by
  obtain ⟨id, hid, hn⟩ := Option.bind_eq_some_iff.1 h
  simp only [ascentsFrom, hid, hn, if_pos hw]

theorem ascentsFrom_of_notMem {id : NodeId} {n : Node} (hid : b.link = some id)
    (hn : g.node? id = some n) (hw : n.name ∉ way) :
    ascentsFrom g way b k =
      (ascents g (n.name :: way) n.bases.zipIdx).map (·.under k) ++ [⟨[k], id⟩] := by
  simp only [ascentsFrom, hid, hn, if_neg hw]

/-- A way up from one of some bases starts with that one. -/
theorem mem_ascents {a : Ascent} {bases : List (Base × Nat)} :
    a ∈ ascents g way bases ↔ ∃ b k, (b, k) ∈ bases ∧ a ∈ ascentsFrom g way b k := by
  induction bases with
  | nil => simp [ascents_nil]
  | cons bk bases ih =>
    obtain ⟨b, k⟩ := bk
    rw [ascents_cons, List.mem_append, ih]
    constructor
    · rintro (ha | ⟨b', k', hmem, ha⟩)
      · exact ⟨b, k, List.mem_cons_self, ha⟩
      · exact ⟨b', k', List.mem_cons_of_mem _ hmem, ha⟩
    · rintro ⟨b', k', hmem, ha⟩
      obtain hfirst | hmem := List.mem_cons.1 hmem
      · obtain ⟨rfl, rfl⟩ := Prod.mk.inj hfirst
        exact .inl ha
      · exact .inr ⟨b', k', hmem, ha⟩

/-- A way up that starts with a base ends there, or goes on above it. -/
theorem mem_ascentsFrom {a : Ascent} :
    a ∈ ascentsFrom g way b k ↔ ∃ id n, b.link = some id ∧ g.node? id = some n ∧ n.name ∉ way ∧
      (a = ⟨[k], id⟩ ∨ ∃ a' ∈ ascents g (n.name :: way) n.bases.zipIdx, a = a'.under k) := by
  constructor
  · intro ha
    cases h : b.link.bind g.node? with
    | none =>
      rw [ascentsFrom_of_none h] at ha
      cases ha
    | some n =>
      obtain ⟨id, hid, hn⟩ := Option.bind_eq_some_iff.1 h
      by_cases hw : n.name ∈ way
      · rw [ascentsFrom_of_mem h hw] at ha
        cases ha
      · rw [ascentsFrom_of_notMem hid hn hw, List.mem_append, List.mem_singleton] at ha
        refine ⟨id, n, hid, hn, hw, ?_⟩
        rcases ha with ha | ha
        · obtain ⟨a', ha', rfl⟩ := List.mem_map.1 ha
          exact .inr ⟨a', ha', rfl⟩
        · exact .inl ha
  · rintro ⟨id, n, hid, hn, hw, ha⟩
    rw [ascentsFrom_of_notMem hid hn hw, List.mem_append, List.mem_singleton]
    rcases ha with ha | ⟨a', ha', rfl⟩
    · exact .inr ha
    · exact .inl (List.mem_map.2 ⟨a', ha', rfl⟩)

theorem steps_of_mem_ascentsFrom {a : Ascent} (ha : a ∈ ascentsFrom g way b k) :
    ∃ steps, a.steps = k :: steps := by
  obtain ⟨id, n, -, -, -, rfl | ⟨a', -, rfl⟩⟩ := mem_ascentsFrom.1 ha
  · exact ⟨[], rfl⟩
  · exact ⟨a'.steps, rfl⟩

end

theorem Ascent.under_injective (k : Nat) : (Ascent.under k).Injective := by
  intro a a' h
  obtain ⟨hsteps, htop⟩ := Ascent.mk.inj h
  exact congrArg₂ Ascent.mk (List.cons.inj hsteps).2 htop

/-- All ways up are listed, and nothing else. -/
theorem climbs_iff {g : Graph} {way : List String} {bases : List Base} {steps : List Nat}
    {top : NodeId} :
    Climbs g way bases steps top ↔ (⟨steps, top⟩ : Ascent) ∈ ascents g way bases.zipIdx := by
  constructor
  · intro h
    induction h with
    | base hb hlink hn hw =>
      refine mem_ascents.2 ⟨_, _, List.mk_mem_zipIdx_iff_getElem?.2 hb, ?_⟩
      exact mem_ascentsFrom.2 ⟨_, _, hlink, hn, hw, .inl rfl⟩
    | above hb hlink hn hw _ ih =>
      refine mem_ascents.2 ⟨_, _, List.mk_mem_zipIdx_iff_getElem?.2 hb, ?_⟩
      exact mem_ascentsFrom.2 ⟨_, _, hlink, hn, hw, .inr ⟨_, ih, rfl⟩⟩
  · -- each step of a way leads to a name that is new on it, and goes down the list of them
    induction steps generalizing way bases with
    | nil =>
      intro h
      obtain ⟨b, k, -, ha⟩ := mem_ascents.1 h
      obtain ⟨steps, hsteps⟩ := steps_of_mem_ascentsFrom ha
      cases hsteps
    | cons i steps ih =>
      intro h
      obtain ⟨b, k, hb, ha⟩ := mem_ascents.1 h
      have hbase := List.mk_mem_zipIdx_iff_getElem?.1 hb
      obtain ⟨id, n, hlink, hn, hw, ha | ⟨a', ha', ha⟩⟩ := mem_ascentsFrom.1 ha
      · obtain ⟨hsteps, rfl⟩ := Ascent.mk.inj ha
        rw [hsteps]
        exact .base hbase hlink hn hw
      · obtain ⟨hsteps, rfl⟩ := Ascent.mk.inj ha
        obtain ⟨rfl, rfl⟩ := List.cons.inj hsteps
        exact .above hbase hlink hn hw (ih ha')

/-- No way up is listed twice. -/
theorem nodup_ascents {g : Graph} {way : List String} {bases : List (Base × Nat)}
    (h : (bases.map (·.2)).Nodup) : (ascents g way bases).Nodup := by
  induction way, bases using ascents.induct (g := g) with
  | case1 way =>
    rw [ascents_nil]
    exact List.nodup_nil
  | case2 way b k bs ihnode ihrest =>
    rw [List.map_cons, List.nodup_cons] at h
    rw [ascents_cons, List.nodup_append]
    refine ⟨?_, ihrest h.2, ?_⟩
    · cases hlink : b.link.bind g.node? with
      | none =>
        rw [ascentsFrom_of_none hlink]
        exact List.nodup_nil
      | some n =>
        obtain ⟨id, hid, hn⟩ := Option.bind_eq_some_iff.1 hlink
        by_cases hw : n.name ∈ way
        · rw [ascentsFrom_of_mem hlink hw]
          exact List.nodup_nil
        · have habove : (ascents g (n.name :: way) n.bases.zipIdx).Nodup := by
            refine ihnode id n hn hw ?_
            rw [List.zipIdx_map_snd]
            exact List.nodup_range'
          rw [ascentsFrom_of_notMem hid hn hw, List.nodup_append]
          refine ⟨habove.map (Ascent.under_injective k), List.nodup_singleton _, ?_⟩
          -- a way that goes on above the base has more than one step
          rintro a ha a' ha' rfl
          obtain ⟨a', habove, rfl⟩ := List.mem_map.1 ha
          obtain ⟨b', k', -, hfrom⟩ := mem_ascents.1 habove
          obtain ⟨steps, hsteps⟩ := steps_of_mem_ascentsFrom hfrom
          have hone := congrArg Ascent.steps (List.mem_singleton.1 ha')
          rw [Ascent.under, hsteps] at hone
          cases hone
    · rintro a ha a' ha' rfl
      obtain ⟨b', k', hmem, hfrom⟩ := mem_ascents.1 ha'
      obtain ⟨steps, hsteps⟩ := steps_of_mem_ascentsFrom ha
      obtain ⟨steps', hsteps'⟩ := steps_of_mem_ascentsFrom hfrom
      obtain rfl := (List.cons.inj (hsteps.symm.trans hsteps')).1
      exact h.1 (List.mem_map.2 ⟨(b', k), hmem, rfl⟩)

theorem Climbs.top_new {g : Graph} {way : List String} {bases : List Base} {steps : List Nat}
    {top : NodeId} (h : Climbs g way bases steps top) :
    ∃ n, g.node? top = some n ∧ n.name ∉ way := by
  induction h with
  | base _ _ hn hw => exact ⟨_, hn, hw⟩
  | above _ _ _ _ _ ih =>
    obtain ⟨n, hn, hw⟩ := ih
    exact ⟨n, hn, fun h => hw (List.mem_cons_of_mem _ h)⟩

/-! ### Which fields are written -/

section

variable {g : Graph} {way : List String}

theorem inheritedIds_cons {b : Base} {k : Nat} {bs : List (Base × Nat)} :
    inheritedIds g way ((b, k) :: bs) =
      (ascentsFrom g way b k).flatMap (fun a => g.fieldIds a.top (·.access ≠ .owner)) ++
        inheritedIds g way bs := by
  rw [inheritedIds, ascents_cons, List.flatMap_append]
  rfl

theorem flatMap_ascentsFrom {b : Base} {k : Nat} {id : NodeId} {n : Node} (hid : b.link = some id)
    (hn : g.node? id = some n) (hw : n.name ∉ way) :
    (ascentsFrom g way b k).flatMap (fun a => g.fieldIds a.top (·.access ≠ .owner)) =
      inheritedIds g (n.name :: way) n.bases.zipIdx ++ g.fieldIds id (·.access ≠ .owner) := by
  rw [ascentsFrom_of_notMem hid hn hw, List.flatMap_append, List.flatMap_map,
    List.flatMap_singleton]
  rfl

theorem map_field?_inheritedIds (bases : List (Base × Nat)) :
    (inheritedIds g way bases).map g.field? = (inherited g way (bases.map (·.1))).map some := by
  induction way, bases using ascents.induct (g := g) with
  | case1 way =>
    rw [inheritedIds, ascents_nil, List.map_nil, inherited_nil]
    rfl
  | case2 way b k bs ihnode ihrest =>
    rw [inheritedIds_cons, List.map_append, ihrest, List.map_cons, inherited_cons, List.map_append]
    congr 1
    cases hlink : b.link.bind g.node? with
    | none =>
      rw [ascentsFrom_of_none hlink, basePart_of_none hlink]
      rfl
    | some n =>
      obtain ⟨id, hid, hn⟩ := Option.bind_eq_some_iff.1 hlink
      by_cases hw : n.name ∈ way
      · rw [ascentsFrom_of_mem hlink hw, basePart_of_mem hlink hw]
        rfl
      · have habove := ihnode id n hn hw
        rw [List.zipIdx_map_fst] at habove
        rw [flatMap_ascentsFrom hid hn hw, basePart_of_notMem hlink hw, List.map_append,
          List.map_append, habove, g.map_field?_fieldIds hn]

/-- The fields that are written for a node, one by one. -/
theorem map_field?_flattenIds {root : NodeId} {n : Node} (hn : g.node? root = some n) :
    (flattenIds g root n).map g.field? = (flatten g n).map some := by
  rw [flattenIds, flatten, List.map_append, List.map_append, map_field?_inheritedIds,
    List.zipIdx_map_fst, g.map_field?_fieldIds hn, List.filter_true]

end

/-- Nothing that a node inherits from with a field for its heirs can be reached in two ways. -/
def OneWayUp (g : Graph) (n : Node) : Prop :=
  ∀ (id : NodeId) (m : Node), g.node? id = some m → (∃ f ∈ m.fields, f.access ≠ .owner) →
    ∀ steps steps', Climbs g [n.name] n.bases steps id → Climbs g [n.name] n.bases steps' id →
      steps = steps'

section

variable {g : Graph} {root : NodeId} {n : Node}

theorem exists_mem_fieldIds {id : NodeId} {m : Node} (hm : g.node? id = some m) :
    (∃ o, o ∈ g.fieldIds id (·.access ≠ .owner)) ↔ ∃ f ∈ m.fields, f.access ≠ .owner := by
  rw [g.fieldIds_of_node hm]
  constructor
  · rintro ⟨o, ho⟩
    obtain ⟨⟨f, i⟩, hfi, -⟩ := List.mem_map.1 ho
    obtain ⟨hmem, hf⟩ := List.mem_filter.1 hfi
    exact ⟨f, List.fst_mem_of_mem_zipIdx hmem, by simpa using hf⟩
  · rintro ⟨f, hmem, hf⟩
    obtain ⟨i, hi⟩ := List.mem_iff_getElem?.1 hmem
    refine ⟨⟨id, i⟩, List.mem_map.2 ⟨(f, i), List.mem_filter.2 ⟨?_, by simpa using hf⟩, rfl⟩⟩
    exact List.mk_mem_zipIdx_iff_getElem?.2 hi

theorem nodup_inheritedIds_iff :
    (inheritedIds g [n.name] n.bases.zipIdx).Nodup ↔ OneWayUp g n := by
  have hlisted : (ascents g [n.name] n.bases.zipIdx).Nodup := by
    refine nodup_ascents ?_
    rw [List.zipIdx_map_snd]
    exact List.nodup_range'
  rw [inheritedIds, List.nodup_flatMap]
  constructor
  · rintro ⟨-, hdisjoint⟩ id m hm hfield steps steps' h h'
    obtain ⟨o, ho⟩ := (exists_mem_fieldIds hm).2 hfield
    by_contra hne
    have hsymm : Std.Symm (Function.onFun List.Disjoint fun a : Ascent =>
        g.fieldIds a.top (·.access ≠ .owner)) := ⟨fun _ _ h => List.disjoint_symm h⟩
    have hapart := hdisjoint.forall (climbs_iff.1 h) (climbs_iff.1 h')
      fun heq => hne (Ascent.mk.inj heq).1
    exact hapart ho ho
  · refine fun honce => ⟨fun a _ => g.nodup_fieldIds, ?_⟩
    refine hlisted.pairwise_of_forall_ne ?_
    rintro ⟨steps, id⟩ h ⟨steps', id'⟩ h' hne o ho ho'
    -- a field is one of the node that it is a field of
    obtain rfl : id = id' := (g.mem_fieldIds.1 ho).1.symm.trans (g.mem_fieldIds.1 ho').1
    obtain ⟨m, hm, -⟩ := (climbs_iff.2 h).top_new
    have hsteps := honce id m hm ((exists_mem_fieldIds hm).1 ⟨o, ho⟩) steps steps'
      (climbs_iff.2 h) (climbs_iff.2 h')
    exact hne (congrArg (Ascent.mk · id) hsteps)

/-- The fields of a node itself are none that it inherits, even if it inherits from itself. -/
theorem nodup_flattenIds_iff (hn : g.node? root = some n) :
    (flattenIds g root n).Nodup ↔ OneWayUp g n := by
  rw [flattenIds, List.nodup_append, nodup_inheritedIds_iff]
  refine ⟨And.left, fun honce => ⟨honce, g.nodup_fieldIds, ?_⟩⟩
  rintro o ho o' ho' rfl
  obtain ⟨⟨steps, id⟩, ha, ho⟩ := List.mem_flatMap.1 ho
  obtain rfl : id = root := (g.mem_fieldIds.1 ho).1.symm.trans (g.mem_fieldIds.1 ho').1
  obtain ⟨m, hm, hw⟩ := (climbs_iff.2 ha).top_new
  obtain rfl : n = m := Option.some.inj (hn.symm.trans hm)
  exact hw (List.mem_singleton_self _)

end

/-! ### What is written for each of them -/

/-- A plan has one part for each field. -/
theorem plan_parts {g : Graph} {fs : List Field} {ms : List (Member Shape)}
    (h : plan g fs = .ok ms) :
    ∃ parts, List.Forall₂ (fun f part => planMember g f.serializedName [] [] "" f = .ok part)
      fs parts ∧ ms = parts.flatten := by
  induction fs generalizing ms with
  | nil =>
    cases h
    exact ⟨[], .nil, rfl⟩
  | cons f fs ih =>
    rw [plan_cons] at h
    obtain ⟨part, hf, h⟩ := bind_eq_ok.1 h
    obtain ⟨rest, hfs, h⟩ := bind_eq_ok.1 h
    cases h
    obtain ⟨parts, hparts, rfl⟩ := ih hfs
    exact ⟨part :: parts, .cons hf hparts, rfl⟩

theorem writeMembers_flatten (object receiver : Place) (depth : Nat)
    (parts : List (List (Member Shape))) :
    writeMembers object receiver depth parts.flatten =
      parts.flatMap (writeMembers object receiver depth) := by
  induction parts with
  | nil => rw [List.flatten_nil, writeMembers, List.flatMap_nil]
  | cons part parts ih =>
    rw [List.flatten_cons, writeMembers_append, ih, List.flatMap_cons]

theorem readMembers_flatten (object source : Place) (depth : Nat)
    (parts : List (List (Member Shape))) :
    readMembers object source depth parts.flatten =
      parts.flatMap (readMembers object source depth) := by
  induction parts with
  | nil => rw [List.flatten_nil, readMembers, List.flatMap_nil]
  | cons part parts ih =>
    rw [List.flatten_cons, readMembers_append, ih, List.flatMap_cons]

/-- The fields that are written for a node are different ones exactly if nothing that adds a field
is reached in two ways.  Code goes through them once, field by field: so no member is written or
read twice then, and one of a field that comes twice is. -/
theorem flatten_no_repeats_iff {g : Graph} {root : NodeId} {n : Node} (hn : g.node? root = some n) :
    (flattenIds g root n).map g.field? = (flatten g n).map some ∧
    ((flattenIds g root n).Nodup ↔ OneWayUp g n) ∧
    ∀ text, generate g n = .ok text → ∃ parts : List (List (Member Shape)),
      List.Forall₂ (fun o part => ∃ f, g.field? o = some f ∧
        planMember g f.serializedName [] [] "" f = .ok part) (flattenIds g root n) parts ∧
      text = routinesText n.name parts.flatten ∧
      ∀ object other : Place,
        writeMembers object other 0 parts.flatten = parts.flatMap (writeMembers object other 0) ∧
        readMembers object other 0 parts.flatten = parts.flatMap (readMembers object other 0) := by
  have hfields := map_field?_flattenIds hn
  refine ⟨hfields, nodup_flattenIds_iff hn, fun text htext => ?_⟩
  obtain ⟨-, ms, hplan, rfl⟩ := generate_eq_ok.1 htext
  obtain ⟨parts, hparts, rfl⟩ := plan_parts hplan
  refine ⟨parts, ?_, rfl, fun object other =>
    ⟨writeMembers_flatten object other 0 parts, readMembers_flatten object other 0 parts⟩⟩
  have hsome : List.Forall₂ (fun f? part => ∃ f, f? = some f ∧
      planMember g f.serializedName [] [] "" f = .ok part) ((flatten g n).map some) parts :=
    List.forall₂_map_left_iff.2 (hparts.imp fun f part h => ⟨f, rfl, h⟩)
  rw [← hfields] at hsome
  exact List.forall₂_map_left_iff.1 hsome

section

/-- A type with one field. -/
private def single (name field : String) (access : Access) (bases : List Base) : Node :=
  ⟨name, .all, ["JSON"], [{ Field.named field (.scalar .int) with access := access }], bases⟩

/-- A type that inherits from two others. -/
private def child : Node := single "Child" "c" .anyone [⟨"Mother", some 2⟩, ⟨"Father", some 3⟩]

/-- A child whose mother is a person and tracked, and what its father is.  Who is tracked gets a
field that nobody else may name. -/
private def household (father : Base) : Graph :=
  ⟨[single "Person" "id" .anyone [], single "Tracked" "seen" .owner [],
    single "Mother" "m" .anyone [⟨"Person", some 0⟩, ⟨"Tracked", some 1⟩],
    single "Father" "f" .anyone [father], child]⟩

/-- A base that is reached in two ways does no harm as long as it adds nothing: if the father is
tracked as well, the child is still a person in one way only. -/
theorem flatten_no_repeats_household :
    (household ⟨"Tracked", some 1⟩).node? 4 = some child ∧
    flattenIds (household ⟨"Tracked", some 1⟩) 4 child = [⟨0, 0⟩, ⟨2, 0⟩, ⟨3, 0⟩, ⟨4, 0⟩] ∧
    OneWayUp (household ⟨"Tracked", some 1⟩) child := by
  have hids : flattenIds (household ⟨"Tracked", some 1⟩) 4 child =
      [⟨0, 0⟩, ⟨2, 0⟩, ⟨3, 0⟩, ⟨4, 0⟩] := by cbv
  have hchild : (household ⟨"Tracked", some 1⟩).node? 4 = some child := rfl
  obtain ⟨-, hnodup, -⟩ := flatten_no_repeats_iff hchild
  exact ⟨hchild, hids, hnodup.1 (by rw [hids]; decide)⟩

/-- In a household whose father is a person, those who inherit come last. -/
private theorem lt_of_baseOf_household {id target : NodeId}
    (h : (household ⟨"Person", some 0⟩).BaseOf id target) : target < id := by
  obtain ⟨n, hn, b, hb, hlink⟩ := h
  have hlinks : ∀ i < 5, ∀ n ∈ (household ⟨"Person", some 0⟩).node? i, ∀ b ∈ n.bases,
      ∀ t ∈ b.link, t < i := by decide
  exact hlinks id (List.getElem?_eq_some_iff.1 hn).1 n hn b hb target hlink

/-- A member that is written under its own name. -/
private def number (name : String) : Member Shape := ⟨[], name, name, .number ""⟩

/-- Without any circle, a field may still come twice: if the father is a person as well, the child
gets the number of a person from both, and it is written twice under one key. -/
theorem flatten_repeats_household :
    (household ⟨"Person", some 0⟩).node? 4 = some child ∧
    (household ⟨"Person", some 0⟩).AcyclicAbove 4 ∧
    flattenIds (household ⟨"Person", some 0⟩) 4 child =
      [⟨0, 0⟩, ⟨2, 0⟩, ⟨0, 0⟩, ⟨3, 0⟩, ⟨4, 0⟩] ∧
    ¬ (flattenIds (household ⟨"Person", some 0⟩) 4 child).Nodup ∧
    generate (household ⟨"Person", some 0⟩) child =
      .ok (routinesText "Child" (["id", "m", "id", "f", "c"].map number)) := by
  have hids : flattenIds (household ⟨"Person", some 0⟩) 4 child =
      [⟨0, 0⟩, ⟨2, 0⟩, ⟨0, 0⟩, ⟨3, 0⟩, ⟨4, 0⟩] := by cbv
  have hplan : plan (household ⟨"Person", some 0⟩) (flatten (household ⟨"Person", some 0⟩) child) =
      .ok (["id", "m", "id", "f", "c"].map number) := by cbv
  have hlt : ∀ {a b : NodeId},
      Relation.TransGen (household ⟨"Person", some 0⟩).BaseOf a b → b < a := by
    intro a b h
    induction h with
    | single h => exact lt_of_baseOf_household h
    | tail _ h ih => exact Nat.lt_trans (lt_of_baseOf_household h) ih
  refine ⟨rfl, fun id _ hcircle => Nat.lt_irrefl id (hlt hcircle), hids, ?_, ?_⟩
  · rw [hids]
    decide
  · exact generate_eq_ok.2 ⟨rfl, _, hplan, rfl⟩

end

end Emit
end Marshal
