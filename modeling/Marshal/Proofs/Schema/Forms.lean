import Marshal.Proofs.Data.Shows
import Marshal.Proofs.Schema.Copy
import Marshal.Schema.Decode
import Marshal.Schema.Encode

/-!
# What is read from the form of a bundle

Whatever shows the form of a field, a node or a bundle, the readers make of it the field, node or
bundle without its links.  The inside of a kind is read from values that were put aside, level by
level, and there are enough levels because every level of fields is one of values as well.

## Main definitions

* `Field.parts` — the form of what is in a kind.
* `Kind.outline` — a kind without what is in it.

## Main results

* `reads_field`, `reads_node`, `reads_bundle` — what is made of the forms.
* `Field.plain_encode`, `Node.plain_encode` — the forms are plain.
-/

namespace Marshal
namespace Schema

open Data

variable {σ : Type} [Source σ]

/-! ### Alternatives -/

theorem reads_choice {α : Type} {all : List α} {name : α → String} {default a : α} {i : Nat}
    (hname : variantOf (all.map name) (name a) = .ok i) (ha : all.getD i default = a) :
    Reads (readChoice all name default : σ → _) (.text (name a)) a := by
  subst ha
  exact (reads_choose hname).map fun i => all.getD i default

theorem reads_access (a : Access) : Reads (readAccess : σ → _) (.text a.name) a := by
  have h : ∃ i, variantOf (Access.all.map Access.name) a.name = .ok i ∧
      Access.all.getD i .anyone = a := by
    cases a <;> exact ⟨_, rfl, rfl⟩
  obtain ⟨i, hname, ha⟩ := h
  exact reads_choice hname ha

theorem reads_policy (p : Policy) : Reads (readPolicy : σ → _) (.text p.name) p := by
  have h : ∃ i, variantOf (Policy.every.map Policy.name) p.name = .ok i ∧
      Policy.every.getD i .custom = p := by
    cases p with
    | only a => cases a <;> exact ⟨_, rfl, rfl⟩
    | _ => exact ⟨_, rfl, rfl⟩
  obtain ⟨i, hname, hp⟩ := h
  exact reads_choice hname hp

/-! ### The form of a kind -/

/-- A kind without what is in it. -/
def Kind.outline {α : Type} : Kind α → Kind Unit
  | .scalar s => .scalar s
  | .object => .object
  | .pod => .pod
  | .staticArray _ => .staticArray ()
  | .dynamicArray _ _ => .dynamicArray () ""
  | .vector _ => .vector ()
  | .set sorted _ => .set sorted ()
  | .map sorted _ _ => .map sorted () ()

namespace Field

/-- The form of what is in a kind. -/
def parts : Kind Field → List (String × Value)
  | .scalar _ | .object | .pod => []
  | .staticArray e | .vector e | .set _ e => [("element", encode e)]
  | .dynamicArray e v => [("element", encode e), ("length_var", .text v)]
  | .map _ k v => [("key", encode k), ("value", encode v)]

theorem encodeKind_eq (k : Kind Field) :
    encodeKind k = .map (("kind", .text k.name) :: parts k) := by
  cases k with
  | set sorted e => cases sorted <;> rfl
  | map sorted k v => cases sorted <;> rfl
  | _ => rfl

theorem ne_kind_of_mem_parts {k : Kind Field} {e : String × Value} (h : e ∈ parts k) :
    e.1 ≠ "kind" := by
  cases k <;> simp only [parts, List.mem_cons, List.not_mem_nil, or_false] at h <;>
    first
      | exact absurd h id
      | (subst h; simp)
      | (rcases h with rfl | rfl <;> simp)

theorem plain_encodeKind {k : Kind Field} (h : ∀ e ∈ k.children, e.encode.Plain) :
    (encodeKind k).Plain := by
  rw [encodeKind_eq]
  refine .map (List.forall_mem_cons.2 ⟨.text _, ?_⟩)
  cases k <;> simp only [parts, Kind.children, List.forall_mem_cons, List.not_mem_nil] at h ⊢ <;>
    simp [h, Value.Plain.text]

theorem plain_encode (f : Field) : f.encode.Plain := by
  induction f using childInduction with
  | step f ih =>
    obtain ⟨name, formattedName, kind, typeName, access, link⟩ := f
    refine .map ?_
    simp only [List.forall_mem_cons]
    exact ⟨.text _, .text _, plain_encodeKind ih, .text _, .text _, List.forall_mem_nil _⟩

theorem plain_parts (k : Kind Field) : (Value.map (parts k)).Plain := by
  refine .map fun e he => ?_
  cases k <;> simp only [parts, List.mem_cons, List.not_mem_nil, or_false] at he <;>
    first
      | exact absurd he id
      | (subst he; exact plain_encode _)
      | (rcases he with rfl | rfl <;> first | exact plain_encode _ | exact .text _)

/-- Every level of fields is one of values as well. -/
theorem depth_encode_lt {f e : Field} (h : e ∈ f.kind.children) :
    e.encode.depth < f.encode.depth := by
  obtain ⟨name, formattedName, kind, typeName, access, link⟩ := f
  have hkind : e.encode.depth < (encodeKind kind).depth := by
    cases kind <;> simp only [Kind.children, List.mem_cons, List.not_mem_nil, or_false] at h <;>
      first
        | exact absurd h id
        | (subst h; simp only [encodeKind, Value.depth, Value.depthEntries]; omega)
        | (rcases h with rfl | rfl <;>
            (simp only [encodeKind, Value.depth, Value.depthEntries]; omega))
  simp only [encode, Value.depth, Value.depthEntries]
  omega

end Field

/-! ### Reading fields -/

theorem nodup_kindLayout (k : Kind Field) : (kindLayout k.outline).fields.Nodup := by
  cases k <;> simp [kindLayout, Kind.outline]

theorem variantOf_kinds (k : Kind Field) :
    ∃ i, variantOf (kinds.map Kind.name) k.name = .ok i ∧ kinds.getD i .object = k.outline := by
  cases k with
  | scalar s => cases s <;> exact ⟨_, rfl, rfl⟩
  | set sorted e => cases sorted <;> exact ⟨_, rfl, rfl⟩
  | map sorted k v => cases sorted <;> exact ⟨_, rfl, rfl⟩
  | _ => exact ⟨_, rfl, rfl⟩

theorem reads_kind {field : Value → Except Fault Field} {k : Kind Field}
    (h : ∀ e ∈ k.children, Reads field e.encode e.unlinked) :
    Reads (readKindWith field : σ → _) (Field.encodeKind k)
      (Field.mapInside (fun e => { e with link := none }) k) := by
  intro x hx
  obtain ⟨i, hname, houtline⟩ := variantOf_kinds k
  rw [Field.encodeKind_eq] at hx
  have hparts := shows_self (Field.plain_parts k)
  simp only [readKindWith, bind, Except.bind,
    reads_tagged hname (fun e he => Field.ne_kind_of_mem_parts he) x hx, houtline]
  cases k with
  | scalar s => rfl
  | object => rfl
  | pod => rfl
  | staticArray e =>
    have he := h e List.mem_cons_self
    exact reads_record (nodup_kindLayout _) rfl (.cons (he.map _) .nil) rfl _ hparts
  | dynamicArray e v =>
    have he := h e List.mem_cons_self
    have hv := reads_text (σ := Value) "a string" v
    exact reads_record (nodup_kindLayout _) rfl (.cons (he.map _) (.cons (hv.map _) .nil)) rfl _
      hparts
  | vector e =>
    have he := h e List.mem_cons_self
    exact reads_record (nodup_kindLayout _) rfl (.cons (he.map _) .nil) rfl _ hparts
  | set sorted e =>
    have he := h e List.mem_cons_self
    exact reads_record (nodup_kindLayout _) rfl (.cons (he.map _) .nil) rfl _ hparts
  | map sorted k v =>
    have hk := h k List.mem_cons_self
    have hv := h v (List.mem_cons_of_mem _ List.mem_cons_self)
    exact reads_record (nodup_kindLayout _) rfl (.cons (hk.map _) (.cons (hv.map _) .nil)) rfl _
      hparts

theorem reads_fieldWith {field : Value → Except Fault Field} {f : Field}
    (h : ∀ e ∈ f.kind.children, Reads field e.encode e.unlinked) :
    Reads (readFieldWith field : σ → _) f.encode f.unlinked := by
  obtain ⟨name, formattedName, kind, typeName, access, link⟩ := f
  have hname := reads_text (σ := σ) "a string" name
  have hformatted := reads_text (σ := σ) "a string" formattedName
  have hkind := reads_kind (σ := σ) h
  have htype := reads_text (σ := σ) "a string" typeName
  have haccess := reads_access (σ := σ) access
  exact reads_record (by decide) rfl
    (.cons (hname.map _) (.cons (hformatted.map _) (.cons (hkind.map _)
      (.cons (htype.map _) (.cons (haccess.map _) .nil))))) rfl

theorem reads_fieldOfValue (f : Field) :
    ∀ levels, f.encode.depth < levels → Reads (fieldOfValue levels) f.encode f.unlinked := by
  induction f using Field.childInduction with
  | step f ih =>
    intro levels hlevels
    cases levels with
    | zero => exact absurd hlevels (Nat.not_lt_zero _)
    | succ levels =>
      exact reads_fieldWith fun e he =>
        ih e he levels (Nat.lt_of_lt_of_le (Field.depth_encode_lt he) (Nat.le_of_lt_succ hlevels))

theorem reads_innerField (f : Field) : Reads readInnerField f.encode f.unlinked := by
  intro v hv
  -- what shows a value and was put aside is that value
  obtain rfl : v = f.encode := Except.ok.inj hv.keep_eq
  exact reads_fieldOfValue f _ (Nat.lt_succ_self _) _ hv

/-- **Whatever shows the form of a field is read as the field without its links.** -/
theorem reads_field (f : Field) : Reads (readField : σ → _) f.encode f.unlinked :=
  reads_fieldWith fun e _ => reads_innerField e

/-! ### Reading nodes -/

theorem reads_base (b : Base) :
    Reads (readBase : σ → _) b.encode { b with link := none } :=
  reads_record (by decide) rfl (.cons ((reads_text "a string" b.name).map _) .nil) rfl

/-- **Whatever shows the form of a node is read as the node without its links.** -/
theorem reads_node (n : Node) : Reads (readNode : σ → _) n.encode n.unlinked := by
  have hname := reads_text (σ := σ) "a string" n.name
  have hpolicy := reads_policy (σ := σ) n.policy
  have hformats := reads_list (σ := σ) fun s (_ : s ∈ n.formats) => reads_text "a string" s
  have hfields := reads_list (σ := σ) fun f (_ : f ∈ n.fields) => reads_field f
  have hbases := reads_list (σ := σ) fun b (_ : b ∈ n.bases) => reads_base b
  rw [List.map_id'] at hformats
  exact reads_record (by decide) rfl
    (.cons (hname.map _) (.cons (hpolicy.map _) (.cons (hformats.map _)
      (.cons (hfields.map _) (.cons (hbases.map _) .nil))))) rfl

theorem Node.plain_encode (n : Node) : n.encode.Plain := by
  refine .map ?_
  simp only [List.forall_mem_cons]
  refine ⟨.text _, .text _, .seq ?_, .seq ?_, .seq ?_, List.forall_mem_nil _⟩
  · exact List.forall_mem_map.2 fun s _ => .text s
  · exact List.forall_mem_map.2 fun f _ => Field.plain_encode f
  · refine List.forall_mem_map.2 fun b _ => .map ?_
    exact List.forall_mem_singleton.2 (.text b.name)

/-! ### Reading bundles -/

/-- A number that the form of a site or link may hold. -/
abbrev Counts (n : Nat) : Prop := n ≤ Json.greatest64

/-- The numbers of a site can be told. -/
def Site.Counts : Site → Prop
  | .base i => Schema.Counts i
  | .field path => ∀ i ∈ path, Schema.Counts i

theorem Site.plain_encode {s : Site} (h : s.Counts) : s.encode.Plain := by
  cases s with
  | base i =>
    refine .map ?_
    simp only [List.forall_mem_cons]
    exact ⟨.text _, .natural h, List.forall_mem_nil _⟩
  | field path =>
    refine .map ?_
    simp only [List.forall_mem_cons]
    exact ⟨.text _, .seq (List.forall_mem_map.2 fun i hi => .natural (h i hi)),
      List.forall_mem_nil _⟩

theorem reads_site {s : Site} (h : s.Counts) : Reads (readSite : σ → _) s.encode s := by
  cases s with
  | base i =>
    have hplain : (Value.map [("index", .natural i)]).Plain :=
      .map (List.forall_mem_singleton.2 (.natural h))
    have hi := reads_count (σ := Value) i
    have hrecord : Reads (readRecord ⟨"struct variant LinkSite::Base", ["index"]⟩ none
        (fun _ _ v => do return some (← readCount v))
        (fun missing index => do return .base (← need missing 0 index)) : Value → _)
        (.map [("index", .natural i)]) (Site.base i) :=
      reads_record (by decide) rfl (.cons (hi.map _) .nil) rfl
    exact (reads_tagged (i := 0) rfl (by simp)).bind (hrecord _ (shows_self hplain))
  | field path =>
    have hsteps : (encodePath path).Plain :=
      .seq (List.forall_mem_map.2 fun i hi => .natural (h i hi))
    have hplain : (Value.map [("path", encodePath path)]).Plain :=
      .map (List.forall_mem_singleton.2 hsteps)
    have hpath := reads_list (σ := Value) fun i (_ : i ∈ path) => reads_count i
    rw [List.map_id'] at hpath
    have hrecord : Reads (readRecord ⟨"struct variant LinkSite::Field", ["path"]⟩ none
        (fun _ _ v => do return some (← readList readCount v))
        (fun missing path => do return .field (← need missing 0 path)) : Value → _)
        (.map [("path", encodePath path)]) (Site.field path) :=
      reads_record (by decide) rfl (.cons (hpath.map _) .nil) rfl
    exact (reads_tagged (i := 1) rfl (by simp)).bind (hrecord _ (shows_self hplain))

theorem reads_link {l : BundleLink} (h : l.site.Counts) :
    Reads (readLink : σ → _) l.encode l := by
  have hholder := reads_count (σ := σ) l.holder
  have hsite := reads_site (σ := σ) h
  have htarget := reads_count (σ := σ) l.target
  exact reads_record (by decide) rfl
    (.cons (hholder.map _) (.cons (hsite.map _) (.cons (htarget.map _) .nil))) rfl

/-- **Whatever shows the form of a bundle is read as the bundle without the links of its nodes.** -/
theorem reads_bundle {b : Bundle} (h : ∀ l ∈ b.links, l.site.Counts) :
    Reads (readBundle : σ → _) b.encode b.unlinked := by
  have hnodes := reads_list (σ := σ) fun n (_ : n ∈ b.nodes) => reads_node n
  have hlinks := reads_list (σ := σ) fun l hl => reads_link (h l hl)
  rw [List.map_id'] at hlinks
  exact reads_record (by decide) rfl (.cons (hnodes.map _) (.cons (hlinks.map _) .nil)) rfl

end Schema
end Marshal
