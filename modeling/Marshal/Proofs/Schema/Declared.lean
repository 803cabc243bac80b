import Marshal.Proofs.Schema.Normalized
import Marshal.Proofs.Schema.Restored
import Marshal.Proofs.Schema.Sound

/-!
# The types that a schema file declares

A schema file is refused for one reason only: a type has the name of one before it.  Otherwise its
types are nodes in the order in which they are declared, each name is that of one of them, and a
reference is linked to the type of the file that its name stands for, or not at all.

## Main results

* `firstRepeated?_eq_some_iff` — the name that a file is refused for.
* `entries_ofNodes` — the names that a file knows.
* `analyze_eq_error_iff` — the file that is refused.
* `analyze_declared` — what becomes of a schema file.
-/

namespace Marshal
namespace Schema

open Data

/-! ### Names that occur twice -/

/-- The first name that occurs a second time comes after names that are all new. -/
theorem firstRepeated?_eq_some_iff {seen names : List String} {name : String} :
    firstRepeated? seen names = some name ↔ ∃ before after, names = before ++ name :: after ∧
      before.Nodup ∧ (∀ m ∈ before, m ∉ seen) ∧ (name ∈ seen ∨ name ∈ before) := by
  induction names generalizing seen with
  | nil => simp [firstRepeated?]
  | cons m names ih =>
    rw [firstRepeated?]
    by_cases hm : m ∈ seen
    · rw [if_pos hm]
      constructor
      · rintro h
        obtain rfl := Option.some.inj h
        exact ⟨[], names, rfl, .nil, by simp, .inl hm⟩
      · rintro ⟨before, after, hsplit, -, hfresh, -⟩
        cases before with
        | nil => exact congrArg some (List.cons.inj hsplit).1
        | cons k before =>
          obtain rfl := (List.cons.inj hsplit).1
          exact absurd hm (hfresh m List.mem_cons_self)
    · rw [if_neg hm, ih]
      constructor
      · rintro ⟨before, after, rfl, hnodup, hfresh, hname⟩
        refine ⟨m :: before, after, rfl, List.nodup_cons.2 ⟨fun hb => ?_, hnodup⟩, ?_, ?_⟩
        · exact hfresh m hb List.mem_cons_self
        · exact List.forall_mem_cons.2
            ⟨hm, fun k hk hseen => hfresh k hk (List.mem_cons_of_mem m hseen)⟩
        · simpa [or_left_comm, or_assoc] using hname
      · rintro ⟨before, after, hsplit, hnodup, hfresh, hname⟩
        cases before with
        | nil =>
          obtain ⟨rfl, rfl⟩ := List.cons.inj hsplit
          exact absurd (hname.resolve_right List.not_mem_nil) hm
        | cons k before =>
          obtain ⟨rfl, rfl⟩ := List.cons.inj hsplit
          obtain ⟨hk, hnodup⟩ := List.nodup_cons.1 hnodup
          obtain ⟨-, hfresh⟩ := List.forall_mem_cons.1 hfresh
          refine ⟨before, after, rfl, hnodup, fun j hj hmem => ?_, ?_⟩
          · rcases List.mem_cons.1 hmem with rfl | hseen
            · exact hk hj
            · exact hfresh j hj hseen
          · simpa [or_left_comm, or_assoc] using hname

/-- A name that has not been there is added, and nothing is taken away. -/
theorem Names.entries_define {m : Names} {name : String} (h : ∀ e ∈ m.entries, e.1 ≠ name)
    (id : NodeId) : (m.define name id).entries = (name, id) :: m.entries := by
  rw [define, List.filter_eq_self.2 fun e he => decide_eq_true (h e he)]

/-- The names that a file knows are those of its types, each for the type that has it. -/
theorem entries_ofNodes (source : FilePath) {nodes : List Node} (h : (nodes.map (·.name)).Nodup) :
    (Analysis.ofNodes source nodes []).names.entries.Perm (nodes.map (·.name)).zipIdx := by
  unfold Analysis.ofNodes
  rw [List.append_nil]
  induction nodes using List.reverseRecOn with
  | nil => exact .nil
  | append_singleton nodes n ih =>
    rw [List.map_append, List.nodup_append] at h
    obtain ⟨hnodup, -, hlast⟩ := h
    have ih := ih hnodup
    simp only [List.zipIdx_append, List.foldl_append, List.zipIdx_singleton, List.foldl_cons,
      List.foldl_nil, Nat.zero_add, List.map_append, List.map_cons, List.map_nil,
      List.length_map]
    rw [Names.entries_define]
    · exact (List.Perm.cons _ ih).trans (List.perm_append_singleton _ _).symm
    · rintro ⟨name, id⟩ he
      have hmem := List.mem_of_getElem? (List.mk_mem_zipIdx_iff_getElem?.1 (ih.subset he))
      exact hlast name hmem n.name (by simp)

/-! ### Types and their references -/

/-- A field whose serialized name is written out, whatever it is linked to. -/
theorem Field.formattedName_of_unlinked {f e : Field} (h : f.unlinked = e.normalize) :
    f.formattedName = f.serializedName := by
  have hformatted : f.unlinked.formattedName = f.unlinked.serializedName := by
    rw [h, formattedName_normalize, serializedName_normalize]
  rwa [unlinked, mapAll_eq] at hformatted

section

variable {n : Node} {names : Names} (hn : n.unlinked = n)

include hn

/-- A reference that was open is linked to what it stands for. -/
theorem linkAt?_link_of_unlinked {site : Site} {spelling : String}
    (h : n.spelling? site = some spelling) :
    (n.link names).linkAt? site = some (names.resolve? spelling) := by
  rw [Node.linkAt?_link, linkAt?_of_spelling? hn h, h]
  rfl

/-- What is linked is a reference. -/
theorem exists_spelling?_of_linkAt?_link {site : Site} {b : NodeId}
    (h : (n.link names).linkAt? site = some (some b)) :
    ∃ spelling, n.spelling? site = some spelling ∧ names.resolve? spelling = some b := by
  rw [Node.linkAt?_link, Option.map_eq_some_iff] at h
  obtain ⟨l, hl, h⟩ := h
  obtain rfl := Bundle.linkAt?_of_unlinked hn hl
  exact Option.bind_eq_some_iff.1 h

end

/-- A mark decides whether a field takes part, and the policy decides about those without one. -/
theorem FieldEntry.isSelected_eq (policy : Policy) (e : FieldEntry) :
    e.isSelected policy = decide (e.mark = some .serialize ∨
      e.mark = none ∧ (policy = .pod ∨ policy = .all ∨ policy = .only e.field.access)) := by
  obtain ⟨f, mark⟩ := e
  rw [Bool.eq_iff_iff, decide_eq_true_iff]
  cases mark with
  | none => simp [isSelected, Policy.takes_iff]
  | some mark =>
    cases mark with
    | serialize => simp [isSelected]
    | exclude => simp [isSelected]

namespace TypeEntry

variable {t : TypeEntry} {n : Node} (hn : n.unlinked = t.toNode)

include hn

/-- The fields of a node, whatever they are linked to, are those of its type that take part. -/
theorem fields_of_unlinked :
    n.fields.map Field.unlinked = (t.fields.filter fun e => e.mark = some .serialize ∨
      e.mark = none ∧ (n.policy = .pod ∨ n.policy = .all ∨
        n.policy = .only e.field.access)).map (·.field.normalize) := by
  have hpolicy : n.policy = t.policy.getD .all := congrArg Node.policy hn
  have hfields : (n.unlinked).fields = t.toNode.fields := congrArg Node.fields hn
  rw [hpolicy]
  simpa [toNode, Node.normalize, Node.unlinked, FieldEntry.isSelected_eq, Function.comp_def]
    using hfields

/-- Every name in a node is written out, whatever it is linked to. -/
theorem formattedName_of_unlinked {path : List Nat} {f : Field} (hf : n.fieldAt? path = some f) :
    f.formattedName = f.serializedName := by
  have hwritten := Node.fieldAt?_unlinked n path
  rw [hn, hf, toNode, Node.fieldAt?_normalize, Option.map_some, Option.map_eq_some_iff] at hwritten
  obtain ⟨e, -, he⟩ := hwritten
  exact Field.formattedName_of_unlinked he.symm

end TypeEntry

/-! ### Files -/

namespace Description

variable {d : Description} (schema : FilePath)

/-- A file is refused for the first type that has the name of one before it. -/
theorem analyze_eq_error_iff {fault : AnalysisFault} :
    (d.analyze schema).mapError (AnalysisFault.duplicateType · schema) = .error fault ↔
      ∃ before t after, d.types = before ++ t :: after ∧ (before.map (·.name)).Nodup ∧
        t.name ∈ before.map (·.name) ∧ fault = .duplicateType t.name schema := by
  have hrepeated :
      (d.analyze schema).mapError (AnalysisFault.duplicateType · schema) = .error fault ↔
        ∃ name, firstRepeated? [] (d.types.map (·.name)) = some name ∧
          .duplicateType name schema = fault := by
    unfold analyze
    cases firstRepeated? [] (d.types.map (·.name)) <;> simp [Except.mapError]
  simp only [hrepeated, firstRepeated?_eq_some_iff]
  constructor
  · rintro ⟨name, ⟨before, after, hsplit, hnodup, -, hname⟩, rfl⟩
    obtain ⟨ts, us, htypes, rfl, hus⟩ := List.map_eq_append_iff.1 hsplit
    obtain ⟨t, vs, rfl, rfl, -⟩ := List.map_eq_cons_iff.1 hus
    exact ⟨ts, t, vs, htypes, hnodup, hname.resolve_left List.not_mem_nil, rfl⟩
  · rintro ⟨before, t, after, htypes, hnodup, hname, rfl⟩
    exact ⟨t.name, ⟨before.map (·.name), after.map (·.name), by simp [htypes], hnodup, by simp,
      .inr hname⟩, rfl⟩

/-- Where no two types share a name, each has the position that its name leads to. -/
theorem position?_eq_some_iff (hnodup : (d.types.map (·.name)).Nodup) {name : String} {i : Nat} :
    d.position? name = some i ↔ d.types[i]?.map (·.name) = some name := by
  rw [position?, List.findIdx?_eq_some_iff_getElem, Option.map_eq_some_iff]
  constructor
  · rintro ⟨hi, hname, -⟩
    exact ⟨_, List.getElem?_eq_getElem hi, by simpa using hname⟩
  · rintro ⟨t, ht, rfl⟩
    obtain ⟨hi, rfl⟩ := List.getElem?_eq_some_iff.1 ht
    refine ⟨hi, by simp, fun j hj => ?_⟩
    have hne := List.pairwise_iff_getElem.1 hnodup j i (by simp; omega) (by simpa) hj
    simpa using hne

/-- **What becomes of a schema file.**  It is refused exactly if two of its types share a name, for
the first type whose name occurred before.  Otherwise its types are nodes in the order in which they
are declared, with the fields that take part in their order and every serialized name written out at
every depth; the names that are known are the names of these types, each for its own node; and each
reference, at whatever depth, is linked to the node that its spelling stands for among these names,
and to nothing if there is none.  No link leads anywhere else.

A field takes part if it is marked for that.  One without a mark does if the policy of the type is
for plain records or for all fields, or if it is for one kind of access and the field has that;
under any other policy it does not. -/
theorem analyze_declared (hd : d.IsRead) :
    (∀ fault, (d.analyze schema).mapError (AnalysisFault.duplicateType · schema) = .error fault ↔
      ∃ before t after, d.types = before ++ t :: after ∧ (before.map (·.name)).Nodup ∧
        t.name ∈ before.map (·.name) ∧ fault = .duplicateType t.name schema) ∧
    ((∃ a, d.analyze schema = .ok a) ↔ (d.types.map (·.name)).Nodup) ∧
    ∀ a, d.analyze schema = .ok a →
      a.source = d.sourceOf schema ∧ a.tree = List.range d.types.length ∧
      a.graph.size = d.types.length ∧
      a.names.entries.Perm (d.types.map (·.name)).zipIdx ∧
      (∀ name id, a.names.get? name = some id ↔ d.types[id]?.map (·.name) = some name) ∧
      ∀ id t, d.types[id]? = some t → ∃ n, a.graph.node? id = some n ∧
        n.name = t.name ∧ n.policy = t.policy.getD .all ∧ n.formats = t.formats ∧
        n.bases.map (·.name) = t.bases ∧
        n.fields.map Field.unlinked = (t.fields.filter fun e => e.mark = some .serialize ∨
          e.mark = none ∧ (n.policy = .pod ∨ n.policy = .all ∨
            n.policy = .only e.field.access)).map (·.field.normalize) ∧
        (∀ path f, n.fieldAt? path = some f → f.formattedName = f.serializedName) ∧
        (∀ site spelling, n.spelling? site = some spelling →
          n.linkAt? site = some (a.names.resolve? spelling)) ∧
        ∀ site b, n.linkAt? site = some (some b) → b < a.graph.size ∧
          ∃ spelling, n.spelling? site = some spelling ∧ a.names.resolve? spelling = some b := by
  refine ⟨fun _ => analyze_eq_error_iff schema,
    ⟨?_, fun h => ⟨_, (analyze_eq_ok_iff d schema).2 ⟨h, rfl⟩⟩⟩, ?_⟩
  · rintro ⟨a, ha⟩
    exact ((analyze_eq_ok_iff d schema).1 ha).1
  · rintro a ha
    obtain ⟨hnodup, rfl⟩ := (analyze_eq_ok_iff d schema).1 ha
    have hsound := sound_analysis hd.isFresh hnodup schema
    refine ⟨rfl, tree_analysis d schema, size_analysis d schema, ?_, fun name id => ?_,
      fun id t ht => ?_⟩
    · have hnames : (d.types.map TypeEntry.toNode).map (·.name) = d.types.map (·.name) :=
        List.map_map
      have hperm := entries_ofNodes (d.sourceOf schema) (hnames ▸ hnodup)
      rwa [hnames] at hperm
    · rw [get?_analysis schema hnodup, position?_eq_some_iff hnodup]
    · have hnode := node?_analysis d schema id
      rw [ht, Option.map_some] at hnode
      have hfresh := unlinked_toNode (hd.isFresh t (List.mem_of_getElem? ht))
      have hsame : (t.toNode.link (d.analysis schema).names).unlinked = t.toNode := by
        rw [Node.unlinked_link, hfresh]
      have hspelling := Node.spelling?_eq_of_unlinked
        (Node.unlinked_link (d.analysis schema).names t.toNode)
      refine ⟨_, hnode, rfl, rfl, rfl, ?_, ?_, fun path f hf => ?_, fun site spelling hs => ?_,
        fun site b hb => ?_⟩
      · simp [TypeEntry.toNode, Node.normalize, Node.link, Function.comp_def, Base.resolve]
      · exact TypeEntry.fields_of_unlinked hsame
      · exact TypeEntry.formattedName_of_unlinked hsame hf
      · exact linkAt?_link_of_unlinked hfresh (by rwa [hspelling] at hs)
      · obtain ⟨spelling, hs, hresolve⟩ := exists_spelling?_of_linkAt?_link hfresh hb
        exact ⟨hsound.names.resolve? hresolve, spelling, by rwa [hspelling], hresolve⟩

/-- A file with a type that shares the name of one before it. -/
def repeated : Description := ⟨none, [plainType "Item" [], plainType "Box" [], plainType "Item" []]⟩

/-- A private list of records. -/
def hiddenList : Field :=
  ⟨"all", "", .vector ⟨"each", "", .object, "::Item", .anyone, none⟩, "", .owner, none⟩

/-- A number without a mark. -/
def unmarked (name : String) (access : Access) : FieldEntry :=
  ⟨⟨name, "", .scalar .int, "", access, none⟩, none⟩

/-- A type with a base that is not there, in which marks say otherwise than the policy, and a type
for every policy, with a field for every kind of access. -/
def marked : Description :=
  ⟨none, [plainType "Item" [], ⟨"Box", some (.only .anyone), [], ["Nowhere"],
      [⟨hiddenList, some .serialize⟩, unmarked "count" .owner, unmarked "size" .anyone,
        { unmarked "spare" .anyone with mark := some .exclude }]⟩] ++
    Policy.every.map fun policy => ⟨policy.name, some policy, [], [],
      Access.all.map fun access => unmarked access.name access⟩⟩

/-- What a number is read from. -/
def numberValue (name access : String) (marks : List (String × Value)) : Value :=
  .map (marks ++ [("name", .text name), ("access", .text access),
    ("type", .map [("kind", .text "int")])])

/-- What the file is read from. -/
def markedValue : Value :=
  .map [("types", .seq ([typeValue "Item" [] [],
      .map [("name", .text "Box"), ("policy", .text "public"), ("bases", .seq [.text "Nowhere"]),
        ("fields", .seq [
          .map [("mark", .text "serialize"), ("name", .text "all"), ("access", .text "private"),
            ("type", .map [("kind", .text "vector"), ("element", .map [("name", .text "each"),
              ("type", .map [("kind", .text "object")]),
              ("original_type_name", .text "::Item")])])],
          numberValue "count" "private" [], numberValue "size" "public" [],
          numberValue "spare" "public" [("mark", .text "exclude")]])]] ++
    ["pod", "all", "public", "protected", "private", "custom"].map fun policy =>
      .map [("name", .text policy), ("policy", .text policy), ("fields", .seq
        [numberValue "public" "public" [], numberValue "protected" "protected" [],
          numberValue "private" "private" []])]))]

/-- The names of the fields that take part, for each type of the file. -/
def markedNames : List (List String) :=
  [[], ["all", "size"], ["public", "protected", "private"], ["public", "protected", "private"],
    ["public"], ["protected"], ["private"], []]

/-- One file is refused.  In the other, marks override the policy of a type, and without a mark each
policy takes its own fields. -/
theorem analyze_declared_marked :
    (repeated.IsRead ∧ marked.IsRead) ∧
      (repeated.analyze ⟨"Box.sast.json"⟩).mapError
          (AnalysisFault.duplicateType · ⟨"Box.sast.json"⟩) =
        .error (.duplicateType "Item" ⟨"Box.sast.json"⟩) ∧
      ∃ a n, marked.analyze ⟨"Box.sast.json"⟩ = .ok a ∧ a.graph.node? 1 = some n ∧
        n.fields.map Field.unlinked =
          [hiddenList.normalize, (unmarked "size" .anyone).field.normalize] ∧
        n.linkAt? (.field [0, 0]) = some (some 0) ∧ n.linkAt? (.base 0) = some none ∧
        ∀ id names, markedNames[id]? = some names → ∃ n, a.graph.node? id = some n ∧
          (n.fields.map Field.unlinked).map (·.name) = names := by
  have hrepeated : repeated.IsRead :=
    ⟨Value, inferInstance, .map [("types", .seq [typeValue "Item" [] [], typeValue "Box" [] [],
      typeValue "Item" [] []])], rfl⟩
  have hmarked : marked.IsRead := ⟨Value, inferInstance, markedValue, rfl⟩
  refine ⟨⟨hrepeated, hmarked⟩, ((analyze_declared _ hrepeated).1 _).2 ⟨[plainType "Item" [],
    plainType "Box" []], plainType "Item" [], [], rfl, by decide, by decide, rfl⟩, ?_⟩
  obtain ⟨-, haccepted, hmeaning⟩ := analyze_declared ⟨"Box.sast.json"⟩ hmarked
  obtain ⟨a, ha⟩ := haccepted.2 (by decide)
  obtain ⟨-, -, -, -, -, htypes⟩ := hmeaning a ha
  have hkept : ∀ id names, markedNames[id]? = some names → ∃ n, a.graph.node? id = some n ∧
      (n.fields.map Field.unlinked).map (·.name) = names := by
    have hall : markedNames = marked.types.map fun t => ((t.fields.filter fun e =>
        e.mark = some .serialize ∨ e.mark = none ∧ (t.policy.getD .all = .pod ∨
          t.policy.getD .all = .all ∨ t.policy.getD .all = .only e.field.access)).map
            (·.field.normalize)).map (·.name) := rfl
    intro id names hnames
    rw [hall, List.getElem?_map, Option.map_eq_some_iff] at hnames
    obtain ⟨t, ht, rfl⟩ := hnames
    obtain ⟨n, hn, -, hpolicy, -, -, hfields, -⟩ := htypes id t ht
    refine ⟨n, hn, ?_⟩
    rw [hfields, hpolicy]
  obtain ⟨n, hn, -, hpolicy, -, -, hfields, -, hlinks, -⟩ := htypes 1 _ rfl
  refine ⟨a, n, ha, hn, ?_, ?_⟩
  · rw [hfields, hpolicy]
    rfl
  · obtain ⟨-, rfl⟩ := (analyze_eq_ok_iff marked _).1 ha
    obtain rfl := Option.some.inj ((node?_analysis marked _ 1).symm.trans hn)
    exact ⟨(hlinks (.field [0, 0]) "::Item" rfl).trans (by decide),
      (hlinks (.base 0) "Nowhere" rfl).trans (by decide), hkept⟩

end Description

end Schema
end Marshal
