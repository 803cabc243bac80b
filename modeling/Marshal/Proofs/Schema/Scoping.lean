import Marshal.Proofs.Schema.Fresh
import Marshal.Proofs.Schema.Merged

/-!
# Static scoping

Types are numbered file by file.  What a reference is linked to in the end is settled by how it is
spelled and where it stands: the type of that name in the same file, and if there is none, the type
of that name in the last file that has one; in both, the spelling is tried before the spelling
without a leading `::`.

Two rounds of linking come to this.  The first sees one file, the second sees the names of all of
them and finds only the references that the first has left open.

## Main definitions

* `Description.position?`, `Description.own?` — types of one file by name and by spelling.
* `lastPosition?`, `scope?` — types of all files.
* `typeId` — the number of a type.

## Main results

* `Description.analyze_eq_ok_iff` — the analysis of a file.
* `linkAt?_scope` — references are resolved by static scoping.
-/

namespace Marshal
namespace Schema

open Data

/-! ### Scopes -/

/-- The position of the type with a name. -/
def Description.position? (d : Description) (name : String) : Option Nat :=
  d.types.findIdx? (·.name = name)

/-- The position of the type of the same file that a spelling stands for. -/
def Description.own? (d : Description) (spelling : String) : Option Nat :=
  if spelling = "" then none
  else d.position? spelling <|> (Names.withoutGlobal? spelling).bind d.position?

/-- The last file that has a type with a name, and the position of the type there. -/
def lastPosition? (ds : List Description) (name : String) : Option (Nat × Nat) :=
  ds.zipIdx.reverse.findSome? fun (d, k) => (d.position? name).map (k, ·)

/-- The type that a spelling in file number `k` stands for, as the number of its file and its
position there. -/
def scope? (ds : List Description) (k : Nat) (spelling : String) : Option (Nat × Nat) :=
  let own name := (ds[k]?.bind (·.position? name)).map (k, ·)
  let plain := Names.withoutGlobal? spelling
  if spelling = "" then none
  else own spelling <|> plain.bind own <|> lastPosition? ds spelling <|> plain.bind (lastPosition? ds)

/-- The number of a type: types are numbered file by file. -/
def typeId (ds : List Description) (k i : Nat) : NodeId := ((ds.take k).map (·.types.length)).sum + i

theorem lastPosition?_concat (ds : List Description) (d : Description) (name : String) :
    lastPosition? (ds ++ [d]) name =
      ((d.position? name).map (ds.length, ·) <|> lastPosition? ds name) := by
  simp only [lastPosition?, List.zipIdx_append, List.reverse_append, List.zipIdx_singleton,
    List.reverse_singleton, List.singleton_append, List.findSome?_cons, Nat.zero_add]
  cases d.position? name <;> rfl

/-- No file has a type with a name exactly if there is no last one. -/
theorem lastPosition?_eq_none_iff {ds : List Description} {name : String} :
    lastPosition? ds name = none ↔ ∀ d ∈ ds, ∀ t ∈ d.types, t.name ≠ name := by
  induction ds using List.reverseRecOn with
  | nil => simp [lastPosition?]
  | append_singleton ds d ih =>
    have hlast : d.position? name = none ↔ ∀ t ∈ d.types, t.name ≠ name := by
      simp [Description.position?, List.findIdx?_eq_none_iff]
    rw [lastPosition?_concat]
    cases hd : d.position? name with
    | none => simp_all [or_imp]
    | some i =>
      refine iff_of_false (by simp) fun h => ?_
      rw [hlast.2 (h d (by simp))] at hd
      cases hd

/-! ### The analysis of a file -/

/-- No name occurs twice. -/
theorem firstRepeated?_eq_none_iff {seen names : List String} :
    firstRepeated? seen names = none ↔ names.Nodup ∧ ∀ name ∈ names, name ∉ seen := by
  induction names generalizing seen with
  | nil => simp [firstRepeated?]
  | cons name names ih =>
    rw [firstRepeated?]
    by_cases h : name ∈ seen
    · simp [h]
    · rw [if_neg h, ih]
      simp only [List.nodup_cons, List.mem_cons, forall_eq_or_imp, not_or]
      constructor
      · rintro ⟨hnodup, hfresh⟩
        exact ⟨⟨fun hm => (hfresh name hm).1 rfl, hnodup⟩, h, fun n hn => (hfresh n hn).2⟩
      · rintro ⟨⟨hname, hnodup⟩, -, hfresh⟩
        exact ⟨hnodup, fun n hn => ⟨fun he => hname (he ▸ hn), hfresh n hn⟩⟩

/-- Where no two nodes share a name, each name stands for the node that has it. -/
theorem get?_ofNodes (source : FilePath) {nodes : List Node} (h : (nodes.map (·.name)).Nodup)
    (name : String) :
    (Analysis.ofNodes source nodes []).names.get? name = nodes.findIdx? (·.name = name) := by
  unfold Analysis.ofNodes
  rw [List.append_nil]
  induction nodes using List.reverseRecOn with
  | nil => rfl
  | append_singleton nodes n ih =>
    rw [List.map_append, List.nodup_append] at h
    obtain ⟨hnodup, -, hlast⟩ := h
    simp only [List.zipIdx_append, List.foldl_append, List.zipIdx_singleton, List.foldl_cons,
      List.foldl_nil, Names.get?_define, Nat.zero_add, List.findIdx?_append, ih hnodup]
    by_cases hn : name = n.name
    · subst hn
      -- the name has not occurred before
      have hbefore : nodes.findIdx? (·.name = n.name) = none := by
        rw [List.findIdx?_eq_none_iff]
        intro m hm
        simpa using hlast m.name (List.mem_map_of_mem hm) n.name (by simp)
      simp [hbefore, List.findIdx?_cons]
    · have hne : ¬ n.name = name := fun he => hn he.symm
      simp [hn, hne, List.findIdx?_cons]

namespace Description

/-- The types of a file, with the references among them linked. -/
def analysis (d : Description) (schema : FilePath) : Analysis :=
  let a := Analysis.ofNodes (d.sourceOf schema) (d.types.map TypeEntry.toNode) []
  { a with graph := (a.graph.link a.names a.tree).1 }

variable (d : Description) (schema : FilePath)

/-- **A file has an analysis exactly if no two of its types share a name.** -/
theorem analyze_eq_ok_iff {a : Analysis} :
    d.analyze schema = .ok a ↔ (d.types.map (·.name)).Nodup ∧ a = d.analysis schema := by
  unfold analyze analysis
  cases h : firstRepeated? [] (d.types.map (·.name)) with
  | none => simp [(firstRepeated?_eq_none_iff.1 h).1, eq_comm]
  | some name =>
    have hnot : ¬ (d.types.map (·.name)).Nodup := fun hn => by
      rw [firstRepeated?_eq_none_iff.2 ⟨hn, fun _ _ => List.not_mem_nil⟩] at h
      cases h
    simp [hnot]

theorem tree_analysis : (d.analysis schema).tree = List.range d.types.length := by
  simp [analysis, Analysis.ofNodes]

theorem size_analysis : (d.analysis schema).graph.size = d.types.length := by
  unfold analysis
  rw [Graph.size_link]
  simp [Analysis.ofNodes, Graph.size]

/-- **The nodes of a file are its types**, linked by the names of the file. -/
theorem node?_analysis (i : Nat) :
    (d.analysis schema).graph.node? i =
      d.types[i]?.map fun t => t.toNode.link (d.analysis schema).names := by
  have htree := tree_analysis d schema
  unfold analysis at htree ⊢
  rw [Graph.node?_link, htree]
  unfold Analysis.ofNodes Graph.node?
  rw [List.append_nil, List.getElem?_map, Option.map_map]
  cases h : d.types[i]? with
  | none => rfl
  | some t =>
    have hi : i ∈ List.range d.types.length :=
      List.mem_range.2 (List.getElem?_eq_some_iff.1 h).1
    simp [hi]

variable {d} (hnodup : (d.types.map (·.name)).Nodup)
include hnodup

/-- The names that a file knows are those of its types. -/
theorem get?_analysis (name : String) : (d.analysis schema).names.get? name = d.position? name := by
  have hnames : ((d.types.map TypeEntry.toNode).map (·.name)).Nodup := by
    rw [List.map_map]
    exact hnodup
  rw [analysis, get?_ofNodes _ hnames, List.findIdx?_map]
  rfl

theorem resolve?_analysis (spelling : String) :
    (d.analysis schema).names.resolve? spelling = d.own? spelling := by
  have hget : (d.analysis schema).names.get? = d.position? := funext (get?_analysis schema hnodup)
  rw [Names.resolve?, hget, own?]

end Description

/-! ### Types without links -/

theorem Field.unlinked_normalize (f : Field) : f.normalize.unlinked = f.unlinked.normalize := by
  induction f using Field.childInduction with
  | step f ih =>
    obtain ⟨n, m, k, t, a, l⟩ := f
    simp only [unlinked, normalize] at ih ⊢
    cases k <;> simp_all [mapAll, mapInside, Kind.children, serializedName]

/-- The node of a type whose fields are fresh is not linked anywhere. -/
theorem unlinked_toNode {t : TypeEntry} (h : ∀ e ∈ t.fields, e.field.IsFresh) :
    t.toNode.unlinked = t.toNode := by
  unfold TypeEntry.toNode Node.normalize Node.unlinked
  simp only [List.map_map]
  congr 1
  refine List.map_congr_left fun e he => ?_
  have hfresh : e.field.unlinked = e.field := h e (List.mem_of_mem_filter he)
  show e.field.normalize.unlinked = e.field.normalize
  rw [Field.unlinked_normalize, hfresh]

theorem linkAt?_unlinked (n : Node) (site : Site) :
    n.unlinked.linkAt? site = (n.linkAt? site).map fun _ => none := by
  rw [Node.unlinked_eq_relink, Node.linkAt?_relink]

/-- Where there is a reference, there is a site. -/
theorem linkAt?_ne_none {n : Node} {site : Site} {spelling : String}
    (h : n.spelling? site = some spelling) : n.linkAt? site ≠ none := by
  cases site with
  | base i =>
    rw [Node.spelling?, Option.map_eq_some_iff] at h
    obtain ⟨b, hb, -⟩ := h
    simp [Node.linkAt?, hb]
  | field path =>
    rw [Node.spelling?, Option.bind_eq_some_iff] at h
    obtain ⟨f, hf, -⟩ := h
    simp [Node.linkAt?, hf]

/-- A reference of a node that is not linked anywhere is open. -/
theorem linkAt?_of_spelling? {n : Node} (hn : n.unlinked = n) {site : Site} {spelling : String}
    (h : n.spelling? site = some spelling) : n.linkAt? site = some none := by
  have hsite := linkAt?_unlinked n site
  rw [hn] at hsite
  cases hl : n.linkAt? site with
  | none => exact absurd hl (linkAt?_ne_none h)
  | some l => rwa [hl] at hsite

/-- **Two rounds of linking**, with the nodes renumbered in between: what the first finds counts,
and what it leaves open is what the second finds. -/
theorem linkAt?_link_mapLinks_link {n : Node} {site : Site} {spelling : String}
    (hopen : n.linkAt? site = some none) (hspelling : n.spelling? site = some spelling)
    (own all : Names) (move : NodeId → NodeId) :
    (((n.link own).mapLinks move).link all).linkAt? site =
      some ((own.resolve? spelling).map move <|> all.resolve? spelling) := by
  have hsame : ((n.link own).mapLinks move).unlinked = n.unlinked := by
    rw [Node.mapLinks_eq_relink, Node.unlinked_relink, Node.unlinked_link]
  rw [Node.linkAt?_link, Node.spelling?_eq_of_unlinked hsame, Node.mapLinks_eq_relink,
    Node.linkAt?_relink, Node.linkAt?_link, hopen, hspelling]
  rfl

/-! ### All files -/

section

variable {files : List (FilePath × Description)}

/-- All files of a list can be analysed if no two types of a file share a name. -/
theorem mapM_analyze_eq_ok {as : List Analysis}
    (h : files.mapM (fun f => f.2.analyze f.1) = .ok as) :
    (∀ f ∈ files, (f.2.types.map (·.name)).Nodup) ∧ as = files.map fun f => f.2.analysis f.1 := by
  induction files generalizing as with
  | nil =>
    obtain rfl : [] = as := by simpa [pure, Except.pure] using h
    simp
  | cons f files ih =>
    rw [List.mapM_cons] at h
    obtain ⟨a, ha, h⟩ := bind_eq_ok.1 h
    obtain ⟨rest, hrest, h⟩ := bind_eq_ok.1 h
    obtain rfl : a :: rest = as := Except.ok.inj h
    obtain ⟨hnodup, rfl⟩ := (Description.analyze_eq_ok_iff _ _).1 ha
    obtain ⟨hnodups, rfl⟩ := ih hrest
    exact ⟨List.forall_mem_cons.2 ⟨hnodup, hnodups⟩, rfl⟩

/-- The types of a file are numbered from where its first node is. -/
theorem firstId_map_analysis (files : List (FilePath × Description)) (k i : Nat) :
    firstId (files.map fun f => f.2.analysis f.1) k + i = typeId (files.map (·.2)) k i := by
  simp [firstId, typeId, ← List.map_take, Function.comp_def, Description.size_analysis]

theorem typeId_append_of_le {ds : List Description} {k : Nat} (h : k ≤ ds.length)
    (rest : List Description) (i : Nat) : typeId (ds ++ rest) k i = typeId ds k i := by
  rw [typeId, List.take_append_of_le_length h, typeId]

theorem lt_of_lastPosition? {ds : List Description} {name : String} {k i : Nat}
    (h : lastPosition? ds name = some (k, i)) : k < ds.length := by
  obtain ⟨⟨d, j⟩, hmem, hd⟩ := List.exists_of_findSome?_eq_some h
  obtain ⟨_, -, hk⟩ := Option.map_eq_some_iff.1 hd
  obtain rfl := (Prod.mk.inj hk).1
  have hget := List.mk_mem_zipIdx_iff_getElem?.1 (List.mem_reverse.1 hmem)
  exact (List.getElem?_eq_some_iff.1 hget).1

/-- **Over all files a name stands for the type of the last file that has one of that name.** -/
theorem get?_mergeAll_analysis (hnodup : ∀ f ∈ files, (f.2.types.map (·.name)).Nodup)
    (name : String) :
    (mergeAll (files.map fun f => f.2.analysis f.1)).names.get? name =
      (lastPosition? (files.map (·.2)) name).map fun p => typeId (files.map (·.2)) p.1 p.2 := by
  induction files using List.reverseRecOn with
  | nil => rfl
  | append_singleton files f ih =>
    have ih := ih fun g hg => hnodup g (List.mem_append_left _ hg)
    have hown := hnodup f (by simp)
    simp only [List.map_append, List.map_cons, List.map_nil]
    rw [get?_mergeAll_concat, Description.get?_analysis _ hown, lastPosition?_concat, ih,
      List.length_map, List.length_map]
    cases hf : f.2.position? name with
    | some i =>
      have hid := firstId_map_analysis files files.length i
      rw [← typeId_append_of_le (by simp) [f.2]] at hid
      simpa using hid
    | none =>
      cases hlast : lastPosition? (files.map (·.2)) name with
      | none => rfl
      | some p =>
        have hle := Nat.le_of_lt (lt_of_lastPosition? hlast)
        simp [typeId_append_of_le hle]

/-- What a spelling stands for over all files, wherever it is. -/
theorem resolve?_mergeAll_analysis (hnodup : ∀ f ∈ files, (f.2.types.map (·.name)).Nodup)
    (spelling : String) :
    (mergeAll (files.map fun f => f.2.analysis f.1)).names.resolve? spelling =
      (if spelling = "" then none
        else lastPosition? (files.map (·.2)) spelling <|>
          (Names.withoutGlobal? spelling).bind (lastPosition? (files.map (·.2)))).map fun p =>
        typeId (files.map (·.2)) p.1 p.2 := by
  have hget := get?_mergeAll_analysis hnodup
  unfold Names.resolve?
  by_cases hempty : spelling = ""
  · simp [hempty]
  · rw [if_neg hempty, if_neg hempty, hget]
    cases lastPosition? (files.map (·.2)) spelling with
    | some p => rfl
    | none =>
      cases Names.withoutGlobal? spelling with
      | none => rfl
      | some name => exact hget name

/-- The type of the same file comes before that of the last file. -/
theorem scope?_eq {ds : List Description} {k : Nat} {d : Description} (hk : ds[k]? = some d)
    (spelling : String) :
    scope? ds k spelling =
      ((d.own? spelling).map (k, ·) <|>
        if spelling = "" then none
        else lastPosition? ds spelling <|>
          (Names.withoutGlobal? spelling).bind (lastPosition? ds)) := by
  unfold scope? Description.own?
  rw [hk]
  by_cases hempty : spelling = ""
  · simp [hempty]
  · simp only [hempty, if_false, Option.bind_some]
    cases d.position? spelling with
    | some i => rfl
    | none => cases Names.withoutGlobal? spelling <;> rfl

/-- A spelling stands for nothing exactly if it is empty, or no file has a type of that name, with
or without a leading `::`. -/
theorem scope?_eq_none_iff {ds : List Description} {k : Nat} {d : Description}
    (hk : ds[k]? = some d) {spelling : String} :
    scope? ds k spelling = none ↔
      spelling = "" ∨ ∀ name, name = spelling ∨ Names.withoutGlobal? spelling = some name →
        ∀ e ∈ ds, ∀ t ∈ e.types, t.name ≠ name := by
  have hown : ∀ name, lastPosition? ds name = none → d.position? name = none := by
    intro name h
    rw [Description.position?, List.findIdx?_eq_none_iff]
    intro t ht
    simpa using lastPosition?_eq_none_iff.1 h d (List.mem_of_getElem? hk) t ht
  have hlast : (∀ name, name = spelling ∨ Names.withoutGlobal? spelling = some name →
      ∀ e ∈ ds, ∀ t ∈ e.types, t.name ≠ name) ↔
      ∀ name, name = spelling ∨ Names.withoutGlobal? spelling = some name →
        lastPosition? ds name = none := by
    simp only [lastPosition?_eq_none_iff]
  rw [scope?_eq hk, hlast]
  by_cases hempty : spelling = ""
  · simp [hempty, Description.own?]
  · simp only [hempty, false_or, if_false]
    constructor
    · intro h
      simp only [Option.orElse_eq_orElse, Option.orElse_eq_or, Option.or_eq_none_iff] at h
      obtain ⟨-, hself, hplain⟩ := h
      rintro name (rfl | hname)
      · exact hself
      · simpa [hname] using hplain
    · intro h
      have hself := h spelling (.inl rfl)
      cases hplain : Names.withoutGlobal? spelling with
      | none => simp [Description.own?, hplain, hself, hown _ hself]
      | some name =>
        have hname := h name (.inr hplain)
        simp [Description.own?, hplain, hself, hname, hown _ hself, hown _ hname]

/-- **References are resolved by static scoping.**  In the store of files that were read, merged in
order and linked, every type is a node of its own in the tree of its source file, and each of its
references is linked to what its spelling stands for where it is.  It stays open exactly if it is
empty or no file has such a type.  What the file itself has a type for is linked to that type,
whatever the other files are and wherever the file comes among them. -/
theorem linkAt?_scope {files : List (FilePath × Description)} {as : List Analysis}
    (hread : ∀ f ∈ files, f.2.IsRead) (has : files.mapM (fun f => f.2.analyze f.1) = .ok as)
    {k i : Nat} {f : FilePath × Description} {t : TypeEntry} (hf : files[k]? = some f)
    (ht : f.2.types[i]? = some t) :
    ∃ n, (mergeAll as).link.1.graph.node? (typeId (files.map (·.2)) k i) = some n ∧
      n.unlinked = t.toNode ∧
      (∃ tree ∈ (mergeAll as).link.1.trees, tree.source.same (f.2.sourceOf f.1) = true ∧
        typeId (files.map (·.2)) k i ∈ tree.ids) ∧
      ∀ site spelling, t.toNode.spelling? site = some spelling →
        n.linkAt? site = some ((scope? (files.map (·.2)) k spelling).map fun p =>
          typeId (files.map (·.2)) p.1 p.2) ∧
        (n.linkAt? site = some none ↔
          spelling = "" ∨ ∀ name, name = spelling ∨ Names.withoutGlobal? spelling = some name →
            ∀ g ∈ files, ∀ u ∈ g.2.types, u.name ≠ name) ∧
        ∀ j, f.2.own? spelling = some j →
          n.linkAt? site = some (some (typeId (files.map (·.2)) k j)) := by
  obtain ⟨hnodup, rfl⟩ := mapM_analyze_eq_ok has
  have hmem : f ∈ files := List.mem_of_getElem? hf
  have hk : (files.map fun f => f.2.analysis f.1)[k]? = some (f.2.analysis f.1) := by simp [hf]
  have hd : (files.map (·.2))[k]? = some f.2 := by simp [hf]
  have hi : i < f.2.types.length := (List.getElem?_eq_some_iff.1 ht).1
  -- where the node is, and that its tree is linked
  have hnode := node?_mergeAll hk (i := i) (by rwa [Description.size_analysis])
  rw [firstId_map_analysis, Description.node?_analysis, ht, Option.map_some, Option.map_some] at hnode
  obtain ⟨tree, htree, hsource, hids⟩ := mem_trees_mergeAll hk
  have hid := hids i (by rw [Description.tree_analysis]; exact List.mem_range.2 hi)
  rw [firstId_map_analysis] at hid
  have hlinked : ∃ u ∈ (mergeAll (files.map fun f => f.2.analysis f.1)).trees,
      typeId (files.map (·.2)) k i ∈ u.ids := ⟨tree, htree, hid⟩
  have hfresh : t.toNode.unlinked = t.toNode :=
    unlinked_toNode ((hread f hmem).isFresh t (List.mem_of_getElem? ht))
  refine ⟨_, by rw [node?_link_store, hnode, Option.map_some, if_pos hlinked], ?_,
    ⟨tree, htree, hsource, hid⟩, fun site spelling hspelling => ?_⟩
  · rw [Node.unlinked_link, Node.mapLinks_eq_relink, Node.unlinked_relink, Node.unlinked_link, hfresh]
  · -- the first round looks in the file, the second in all of them
    have hlink := linkAt?_of_spelling? hfresh hspelling
    have hsite := linkAt?_link_mapLinks_link hlink hspelling (f.2.analysis f.1).names
      (mergeAll (files.map fun f => f.2.analysis f.1)).names
      (firstId (files.map fun f => f.2.analysis f.1) k + ·)
    have hscope : ((f.2.own? spelling).map (firstId (files.map fun f => f.2.analysis f.1) k + ·) <|>
        (mergeAll (files.map fun f => f.2.analysis f.1)).names.resolve? spelling) =
        (scope? (files.map (·.2)) k spelling).map fun p => typeId (files.map (·.2)) p.1 p.2 := by
      rw [resolve?_mergeAll_analysis hnodup, scope?_eq hd]
      cases f.2.own? spelling with
      | none => rfl
      | some j => exact congrArg some (firstId_map_analysis files k j)
    rw [Description.resolve?_analysis _ (hnodup f hmem), hscope] at hsite
    refine ⟨hsite, ?_, fun j hj => ?_⟩
    · rw [hsite, Option.some_inj, Option.map_eq_none_iff, scope?_eq_none_iff hd]
      simp only [List.forall_mem_map]
    · rw [hsite, scope?_eq hd, hj]
      rfl

end

/-- A type without fields. -/
def plainType (name : String) (bases : List String) : TypeEntry := ⟨name, none, [], bases, []⟩

/-- A type with a field that is a list of records. -/
def listType (name element : String) (bases : List String) : TypeEntry :=
  ⟨name, none, [], bases,
    [⟨⟨"all", "", .vector ⟨"", "", .object, element, .anyone, none⟩, "", .anyone, none⟩, none⟩]⟩

/-- Files that have types of the same names. -/
def crates : List (FilePath × Description) :=
  [(⟨"Box.sast.json"⟩,
      ⟨none, [plainType "Item" [], listType "Box" "::Other" ["::Item", "Base", "Nowhere"]]⟩),
    (⟨"Other.sast.json"⟩, ⟨none, [plainType "Other" [], plainType "Item" []]⟩),
    (⟨"Late.sast.json"⟩, ⟨none, [plainType "Base" [], plainType "Other" []]⟩)]

/-- What a type is read from. -/
def typeValue (name : String) (bases : List String) (fields : List Value) : Value :=
  .map [("name", .text name), ("bases", .seq (bases.map .text)), ("fields", .seq fields)]

/-- What a list of records is read from. -/
def listValue (element : String) : Value :=
  .map [("name", .text "all"), ("type", .map [("kind", .text "vector"), ("element",
    .map [("type", .map [("kind", .text "object")]), ("original_type_name", .text element)])])]

theorem linkAt?_scope_crates :
    ((∀ f ∈ crates, f.2.IsRead) ∧
      crates.mapM (fun f => f.2.analyze f.1) = .ok (crates.map fun f => f.2.analysis f.1)) ∧
    ∃ n, (mergeAll (crates.map fun f => f.2.analysis f.1)).link.1.graph.node? 1 = some n ∧
      n.linkAt? (.base 0) = some (some 0) ∧ n.linkAt? (.base 1) = some (some 4) ∧
      n.linkAt? (.base 2) = some none ∧ n.linkAt? (.field [0, 0]) = some (some 5) := by
  have hread : ∀ f ∈ crates, f.2.IsRead := by
    simp only [crates, List.forall_mem_cons, List.not_mem_nil, false_imp_iff, implies_true, and_true]
    exact ⟨⟨Value, inferInstance, .map [("types", .seq [typeValue "Item" [] [],
        typeValue "Box" ["::Item", "Base", "Nowhere"] [listValue "::Other"]])], rfl⟩,
      ⟨Value, inferInstance, .map [("types", .seq [typeValue "Other" [] [],
        typeValue "Item" [] []])], rfl⟩,
      ⟨Value, inferInstance, .map [("types", .seq [typeValue "Base" [] [],
        typeValue "Other" [] []])], rfl⟩⟩
  have has : crates.mapM (fun f => f.2.analyze f.1) =
      .ok (crates.map fun f => f.2.analysis f.1) := by rfl
  obtain ⟨n, hn, -, -, hlink⟩ := linkAt?_scope hread has (k := 0) (i := 1) rfl rfl
  exact ⟨⟨hread, has⟩, n, hn, (hlink (.base 0) "::Item" (by decide)).1.trans (by decide),
    (hlink (.base 1) "Base" (by decide)).1.trans (by decide),
    (hlink (.base 2) "Nowhere" (by decide)).1.trans (by decide),
    (hlink (.field [0, 0]) "::Other" (by decide)).1.trans (by decide)⟩

end Schema
end Marshal
