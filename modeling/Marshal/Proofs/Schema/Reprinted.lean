import Marshal.Proofs.Json.Levels
import Marshal.Proofs.Schema.Fresh
import Marshal.Proofs.Schema.Wire

/-!
# Printing what was read

The text of a bundle may be spelled in many ways, and its printed form in one.  Nothing that is
read has links or numbers that the form could not tell, and although defaults are written out
where nothing was read, the form goes no deeper than the text it was read from, short of the few
levels that every bundle has.  So the printed form is read again, as what was printed.

## Main definitions

* `BundleLink.Counts` — the numbers of a link can be told.

## Main results

* `measures_field`, `measures_node`, `measures_bundle` — how deep the forms of what is read are.
* `read_print_of_read` — the printed form of what was read is read as the same.
-/

namespace Marshal
namespace Schema

open Data

variable {σ : Type} [Source σ]

/-! ### The depth of forms -/

namespace Field

theorem depth_encodeKind_le {k : Kind Field} {n : Nat} :
    (encodeKind k).depth ≤ n ↔ 0 < n ∧ ∀ e ∈ k.children, e.encode.depth ≤ n - 1 := by
  rw [encodeKind_eq, Value.depth_map_le]
  cases k <;> simp [parts, Kind.children, Value.depth]

theorem depth_encode_le {f : Field} {n : Nat} :
    f.encode.depth ≤ n ↔ 0 < n ∧ (encodeKind f.kind).depth ≤ n - 1 := by
  obtain ⟨name, formattedName, kind, typeName, access, link⟩ := f
  rw [encode, Value.depth_map_le]
  simp [Value.depth]

end Field

/-- The form of a node has the levels of its lists, and below them those of its fields and bases. -/
theorem Node.depth_encode_le {node : Node} {n : Nat} (hn : 1 < n)
    (hfields : ∀ f ∈ node.fields, f.encode.depth + 2 ≤ n) (hbases : ∀ b ∈ node.bases, 2 < n) :
    node.encode.depth ≤ n := by
  have hleaf (s : String) : (Value.text s).depth = 0 := by simp [Value.depth]
  have hbase (b : Base) : b.encode.depth ≤ 1 := by simp [Base.encode, Value.depth_map_le, hleaf]
  refine Value.depth_map_le.2 ⟨by omega, ?_⟩
  simp only [List.forall_mem_cons, hleaf, Value.depth_seq_le, List.forall_mem_map]
  refine ⟨by omega, by omega, ⟨by omega, fun _ _ => by omega⟩, ⟨by omega, fun f hf => ?_⟩,
    ⟨by omega, fun b hb => ?_⟩, List.forall_mem_nil _⟩
  · have := hfields f hf
    omega
  · have := hbases b hb
    have := hbase b
    omega

/-! ### Fields -/

theorem measures_fieldWith {field : Value → Except Fault Field}
    (hfield : Measures field fun n f => f.encode.depth ≤ n) :
    Measures (readFieldWith field : σ → _) fun n f => f.encode.depth ≤ n := by
  intro n x f hx hf
  obtain ⟨-, parts, hparts, v, hv, hkind⟩ := readFieldWith_eq_ok hf
  obtain ⟨hn, hinside⟩ := hx.enter hparts
  obtain ⟨_, _, _, i, rest, htag, hchildren⟩ := readKindWith_eq_ok hkind
  obtain ⟨hn', hrest⟩ := within_of_readTagged (hinside v hv) htag
  refine Field.depth_encode_le.2 ⟨hn, Field.depth_encodeKind_le.2 ⟨hn', fun e he => ?_⟩⟩
  obtain ⟨below, hbelow, w, hw, he⟩ := hchildren e he
  exact hfield _ w e ((hrest.enter hbelow).2 w hw) he

/-- **The form of a field is no deeper than what the field is read from.** -/
theorem measures_field : Measures (readField : σ → _) fun n f => f.encode.depth ≤ n := by
  -- what is inside a kind was put aside, and is read down to some number of levels
  have hvalue : ∀ levels, Measures (fieldOfValue levels) fun n f => f.encode.depth ≤ n := by
    intro levels
    induction levels with
    | zero => exact fun n x f _ h => absurd h (by simp [fieldOfValue])
    | succ levels ih => exact measures_fieldWith ih
  exact measures_fieldWith fun n v f => hvalue _ n v f

/-! ### Nodes -/

theorem measures_base : Measures (readBase : σ → _) fun n b => 0 < n ∧ b.link = none := by
  refine measures_record (I := fun _ _ => True) (fun _ => trivial) (fun _ _ _ _ _ _ _ _ => trivial)
    fun m missing s b _ h => ?_
  obtain ⟨name, -, h⟩ := bind_eq_ok.1 h
  obtain rfl := Except.ok.inj h
  exact ⟨Nat.succ_pos m, rfl⟩

/-- **A node that is read has no links, and its form is no deeper than what it is read from**, or
as deep as that of an empty node. -/
theorem measures_node : Measures (readNode : σ → _) fun n node =>
    node.unlinked = node ∧ node.encode.depth ≤ max 2 n := by
  -- of the `m` levels below the node, its lists take one, and its fields and bases have the others
  refine measures_record (I := fun m p =>
      (∀ f ∈ p.fields, f.IsFresh ∧ f.encode.depth < m) ∧ ∀ b ∈ p.bases, b.link = none ∧ 1 < m)
    (fun m => by simp) ?_ ?_
  · intro m p place v p' hv hp h
    unfold putNodePart at h
    split at h <;> obtain ⟨part, hpart, h⟩ := bind_eq_ok.1 h <;> obtain rfl := Except.ok.inj h
    case h_4 =>
      obtain ⟨hm, hfields⟩ := measures_list measures_field m v part hv hpart
      refine ⟨fun f hf => ⟨gives_list gives_field v part hpart f hf, ?_⟩, hp.2⟩
      have := hfields f hf
      omega
    case h_5 =>
      obtain ⟨hm, hbases⟩ := measures_list measures_base m v part hv hpart
      refine ⟨hp.1, fun b hb => ⟨(hbases b hb).2, ?_⟩⟩
      have := (hbases b hb).1
      omega
    all_goals exact hp
  · intro m missing p node hp h
    obtain ⟨name, -, h⟩ := bind_eq_ok.1 h
    obtain rfl := Except.ok.inj h
    have hfields : p.fields.map Field.unlinked = p.fields :=
      (List.map_congr_left fun f hf => (hp.1 f hf).1).trans (List.map_id _)
    have hbases : (p.bases.map fun b => { b with link := none }) = p.bases :=
      (List.map_congr_left fun b hb => (congrArg (Base.mk b.name) (hp.2 b hb).1).symm).trans
        (List.map_id _)
    refine ⟨by rw [Node.unlinked, hfields, hbases], Node.depth_encode_le (by omega) ?_ ?_⟩
    · intro f hf
      have := (hp.1 f hf).2
      omega
    · intro b hb
      have := (hp.2 b hb).2
      omega

/-! ### Bundles -/

/-- The numbers of a link can be told. -/
def BundleLink.Counts (l : BundleLink) : Prop :=
  Schema.Counts l.holder ∧ l.site.Counts ∧ Schema.Counts l.target

/-- What holds of a part that was read holds of all that is there. -/
theorem forall_mem_some {α : Type} {P : α → Prop} {a : α} (h : P a) : ∀ b ∈ some a, P b :=
  fun _ hb => Option.some.inj hb ▸ h

theorem measures_count : Measures (readCount : σ → _) fun _ k => Counts k :=
  fun _ _ _ hx hk => hx.count hk

theorem measures_site : Measures (readSite : σ → _) fun n s => s.Counts ∧ s.encode.depth ≤ n := by
  intro n x s hx h
  obtain ⟨⟨i, rest⟩, htag, h⟩ := bind_eq_ok.1 h
  obtain ⟨hn, hrest⟩ := within_of_readTagged hx htag
  dsimp only at h
  split at h
  · refine measures_record (I := fun _ index => ∀ k ∈ index, Counts k)
      (P := fun n s => s.Counts ∧ s.encode.depth ≤ n) (by simp) ?_ ?_ n rest s hrest h
    · intro m _ _ v index hv _ hput
      obtain ⟨k, hk, hput⟩ := bind_eq_ok.1 hput
      obtain rfl := Except.ok.inj hput
      exact forall_mem_some (measures_count m v k hv hk)
    · intro m missing index s hindex h
      obtain ⟨k, hk, h⟩ := bind_eq_ok.1 h
      obtain rfl := Except.ok.inj h
      refine ⟨hindex k (need_eq_ok hk), Value.depth_map_le.2 ⟨Nat.succ_pos m, ?_⟩⟩
      simp [Value.depth]
  · refine measures_record
      (I := fun m path => ∀ ks ∈ path, 0 < m ∧ ∀ k ∈ ks, Counts k)
      (P := fun n s => s.Counts ∧ s.encode.depth ≤ n) (by simp) ?_ ?_ n rest s hrest h
    · intro m _ _ v path hv _ hput
      obtain ⟨ks, hks, hput⟩ := bind_eq_ok.1 hput
      obtain rfl := Except.ok.inj hput
      exact forall_mem_some (measures_list measures_count m v ks hv hks)
    · intro m missing path s hpath h
      obtain ⟨ks, hks, h⟩ := bind_eq_ok.1 h
      obtain rfl := Except.ok.inj h
      obtain ⟨hm, hcounts⟩ := hpath ks (need_eq_ok hks)
      refine ⟨hcounts, Value.depth_map_le.2 ⟨Nat.succ_pos m, ?_⟩⟩
      have hsteps : (encodePath ks).depth ≤ m := by
        rw [encodePath, Value.depth_seq_le]
        simp [Value.depth, hm]
      simpa [Value.depth] using hsteps

theorem measures_link : Measures (readLink : σ → _) fun n l => l.Counts ∧ l.encode.depth ≤ n := by
  refine measures_record (I := fun m p => (∀ k ∈ p.1, Counts k) ∧
      (∀ s ∈ p.2.1, s.Counts ∧ s.encode.depth ≤ m) ∧ ∀ k ∈ p.2.2, Counts k)
    (by simp) ?_ ?_
  · rintro m p place v p' hv ⟨hholder, hsite, htarget⟩ h
    unfold putLinkPart at h
    split at h <;> obtain ⟨part, hpart, h⟩ := bind_eq_ok.1 h <;> obtain rfl := Except.ok.inj h
    · exact ⟨forall_mem_some (measures_count m v part hv hpart), hsite, htarget⟩
    · exact ⟨hholder, forall_mem_some (measures_site m v part hv hpart), htarget⟩
    · exact ⟨hholder, hsite, forall_mem_some (measures_count m v part hv hpart)⟩
  · rintro m missing ⟨holder, site, target⟩ l ⟨hholder, hsite, htarget⟩ h
    obtain ⟨a, ha, h⟩ := bind_eq_ok.1 h
    obtain ⟨s, hs, h⟩ := bind_eq_ok.1 h
    obtain ⟨b, hb, h⟩ := bind_eq_ok.1 h
    obtain rfl := Except.ok.inj h
    obtain ⟨hcounts, hdepth⟩ := hsite s (need_eq_ok hs)
    refine ⟨⟨hholder a (need_eq_ok ha), hcounts, htarget b (need_eq_ok hb)⟩, ?_⟩
    refine Value.depth_map_le.2 ⟨Nat.succ_pos m, ?_⟩
    simpa [Value.depth] using hdepth

/-- **The nodes of a bundle that is read have no links, the numbers of its table can be told, and
its form is no deeper than what it is read from**, or as deep as that of a bundle of empty nodes. -/
theorem measures_bundle : Measures (readBundle : σ → _) fun n b =>
    b.unlinked = b ∧ (∀ l ∈ b.links, l.Counts) ∧ b.encode.depth ≤ max 4 n := by
  -- an empty node is read of one level and printed in two, so the bound has a least value
  refine measures_record (I := fun m p =>
      (∀ ns ∈ p.1, ∀ n ∈ ns, n.unlinked = n ∧ n.encode.depth ≤ max 2 (m - 1)) ∧
      ∀ ls ∈ p.2, ∀ l ∈ ls, l.Counts ∧ l.encode.depth + 1 ≤ m) (by simp) ?_ ?_
  · rintro m p place v p' hv ⟨hnodes, hlinks⟩ h
    unfold putBundlePart at h
    split at h <;> obtain ⟨part, hpart, h⟩ := bind_eq_ok.1 h <;> obtain rfl := Except.ok.inj h
    · exact ⟨forall_mem_some (measures_list measures_node m v part hv hpart).2, hlinks⟩
    · refine ⟨hnodes, forall_mem_some fun l hl => ?_⟩
      obtain ⟨hm, hpart⟩ := measures_list measures_link m v part hv hpart
      obtain ⟨hcounts, hdepth⟩ := hpart l hl
      exact ⟨hcounts, by omega⟩
  · rintro m missing ⟨nodes, links⟩ b ⟨hnodes, hlinks⟩ h
    obtain ⟨ns, hns, h⟩ := bind_eq_ok.1 h
    obtain ⟨ls, hls, h⟩ := bind_eq_ok.1 h
    obtain rfl := Except.ok.inj h
    have hnodes := hnodes ns (need_eq_ok hns)
    have hlinks := hlinks ls (need_eq_ok hls)
    have hsame : ns.map Node.unlinked = ns :=
      (List.map_congr_left fun n hn => (hnodes n hn).1).trans (List.map_id _)
    refine ⟨by rw [Bundle.unlinked, hsame], fun l hl => (hlinks l hl).1, ?_⟩
    refine Value.depth_map_le.2 ⟨by omega, ?_⟩
    simp only [List.forall_mem_cons, Value.depth_seq_le, List.forall_mem_map]
    refine ⟨⟨by omega, fun n hn => ?_⟩, ⟨by omega, fun l hl => ?_⟩, List.forall_mem_nil _⟩
    · have := (hnodes n hn).2
      omega
    · have := (hlinks l hl).2
      omega

/-! ### Reading what was printed -/

/-- **What was read, in whatever spelling, is printed in a form that is read as the same.**  Its
text is not nested too deep, is read as the bundle or node that was printed, and all that is read
of it is printed in the same way. -/
theorem read_print_of_read (raw : Raw) :
    (∀ b, Json.read readBundle raw = .ok b →
      b.encode.depth ≤ Json.deepest ∧
      Json.read readBundle (Raw.ofText (Json.print b.encode)) = .ok b ∧
      ∀ b', Json.read readBundle (Raw.ofText (Json.print b.encode)) = .ok b' →
        Json.print b'.encode = Json.print b.encode) ∧
    ∀ n, Json.read readNode raw = .ok n →
      n.encode.depth ≤ Json.deepest ∧
      Json.read readNode (Raw.ofText (Json.print n.encode)) = .ok n ∧
      ∀ n', Json.read readNode (Raw.ofText (Json.print n.encode)) = .ok n' →
        Json.print n'.encode = Json.print n.encode := by
  constructor
  · intro b hb
    obtain ⟨hsame, hcounts, hdepth⟩ := Json.read_within measures_bundle hb
    have hread : Json.read readBundle (Raw.ofText (Json.print b.encode)) = .ok b := by
      have h := Json.read_print (Bundle.plain_encode hcounts) hdepth
        (reads_bundle fun l hl => (hcounts l hl).2.1)
      rwa [hsame] at h
    refine ⟨hdepth, hread, fun b' hb' => ?_⟩
    rw [hread] at hb'
    rw [Except.ok.inj hb']
  · intro n hn
    obtain ⟨hsame, hdepth⟩ := Json.read_within measures_node hn
    have hread : Json.read readNode (Raw.ofText (Json.print n.encode)) = .ok n := by
      have h := Json.read_print n.plain_encode hdepth (reads_node n)
      rwa [hsame] at h
    refine ⟨hdepth, hread, fun n' hn' => ?_⟩
    rw [hread] at hn'
    rw [Except.ok.inj hn']

/-- A bundle spelled with records as lists, a policy as a table, a kind by its number, defaults
left out and an entry that is no field. -/
def looseBundle : String :=
  "\x7b\"v\":2,\"links\":[[0,[\"field\",[0,0]],1]],\"nodes\":[[\"A\",\x7b\"pod\":null\x7d,[]," ++
    "[\x7b\"type\":[\"vector\",[\"\",\"\",\x7b\"kind\":5\x7d,\"B\"]]\x7d]],\x7b\"name\":\"B\"\x7d]\x7d"

/-- A node spelled as a list, with what it leaves out. -/
def looseNode : String := "[\"A\",\x7b\"pod\":null\x7d]"

/-- The form in which the node is printed. -/
def strictNode : String :=
  "\x7b\"name\":\"A\",\"policy\":\"pod\",\"formats\":[],\"fields\":[],\"bases\":[]\x7d"

theorem read_print_of_loose :
    (∃ b, Json.read readBundle (Raw.ofText looseBundle) = .ok b ∧
      b.links = [⟨0, .field [0, 0], 1⟩] ∧ b.encode.depth ≤ Json.deepest ∧
      Json.read readBundle (Raw.ofText (Json.print b.encode)) = .ok b) ∧
    ∃ n, Json.read readNode (Raw.ofText looseNode) = .ok n ∧
      Json.print n.encode = strictNode ∧ Json.read readNode (Raw.ofText strictNode) = .ok n := by
  have hbundle : (Json.read readBundle (Raw.ofText looseBundle)).toOption.map Bundle.links =
      some [⟨0, .field [0, 0], 1⟩] := by decide +kernel
  have hnode : (Json.read readNode (Raw.ofText looseNode)).toOption.map
      (fun n => Json.print n.encode) = some strictNode := by decide +kernel
  constructor
  · cases hb : Json.read readBundle (Raw.ofText looseBundle) with
    | error e => rw [hb] at hbundle; cases hbundle
    | ok b =>
      rw [hb] at hbundle
      obtain ⟨hdepth, hread, -⟩ := (read_print_of_read _).1 b hb
      exact ⟨b, rfl, Option.some.inj hbundle, hdepth, hread⟩
  · cases hn : Json.read readNode (Raw.ofText looseNode) with
    | error e => rw [hn] at hnode; cases hnode
    | ok n =>
      rw [hn] at hnode
      have hprint : Json.print n.encode = strictNode := Option.some.inj hnode
      obtain ⟨-, hread, -⟩ := (read_print_of_read _).2 n hn
      rw [hprint] at hread
      exact ⟨n, rfl, hprint, hread⟩

end Schema
end Marshal
