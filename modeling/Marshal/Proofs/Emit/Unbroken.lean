import Marshal.Proofs.Emit.Hidden
import Marshal.Proofs.Emit.Spelled
import Marshal.Proofs.Schema.Relinked

/-!
# Spellings without line feeds

What the source file spells is written into the code as it is, and with a line feed in it, one line
would become two.  All that code takes over are spellings of fields that planning comes to.  These
are what the walk starts at, what is inside of that, and fields of nodes of the graph; so if none of
them is spelled with a line feed, no line of the code has one.

## Main definitions

* `Unbroken` — a spelling without line feeds.
* `Field.Unbroken`, `Graph.Unbroken` — descriptions without line feeds in their spellings.

## Main results

* `Comes.unbroken` — fields that are come to have no line feeds in their spellings.
* `Takes.unbroken` — what code takes over has none.
-/

namespace Marshal

/-! ### Descriptions -/

/-- A spelling that stays on its line. -/
def Emit.Unbroken (s : String) : Prop := '\n' ∉ s.toList

instance (s : String) : Decidable (Emit.Unbroken s) := inferInstanceAs (Decidable (¬ _))

namespace Schema

/-- What the description of a field spells as the source file does. -/
def Field.spellings (f : Field) : List String :=
  f.name :: f.typeName ::
    match f.kind with
    | .dynamicArray _ lengthVar => [lengthVar]
    | _ => []

/-- A field without line feeds in its spellings and in those of all that is inside it. -/
def Field.Unbroken (f : Field) : Prop := ∀ e ∈ f.descendants, ∀ s ∈ e.spellings, Emit.Unbroken s

/-- A graph of nodes whose fields have no line feeds in their spellings. -/
def Graph.Unbroken (g : Graph) : Prop := ∀ n ∈ g.nodes, ∀ f ∈ n.fields, f.Unbroken

instance (f : Field) : Decidable f.Unbroken := inferInstanceAs (Decidable (∀ _ ∈ _, ∀ _ ∈ _, _))

instance (g : Graph) : Decidable g.Unbroken := inferInstanceAs (Decidable (∀ _ ∈ _, ∀ _ ∈ _, _))

theorem Field.Unbroken.child {f e : Field} (h : f.Unbroken) (he : e ∈ f.kind.children) :
    e.Unbroken := by
  intro d hd
  refine h d ?_
  rw [Field.descendants_eq]
  exact List.mem_cons_of_mem _ (List.mem_flatMap.2 ⟨e, he, hd⟩)

end Schema

namespace Emit

open Schema

/-! ### Lines -/

theorem unbroken_append {s s' : String} : Unbroken (s ++ s') ↔ Unbroken s ∧ Unbroken s' := by
  rw [Unbroken, String.toList_append, List.mem_append, not_or]
  rfl

instance : Compositional Unbroken where
  append h h' := unbroken_append.2 ⟨h, h'⟩
  plain h hmem := absurd (h _ hmem) (by decide)
  literal := newline_notMem_literal
  formatCall := by decide
  truthValues := by decide
  isTrue := by decide
  division := by decide

/-- The pieces of a line without line feeds have none. -/
theorem allPieces_of_unbroken {ps : List Piece} (h : Unbroken (spellAll ps)) :
    AllPieces Unbroken ps := by
  induction ps with
  | nil => exact allPieces_nil
  | cons p ps ih =>
    rw [spellAll_cons, unbroken_append] at h
    exact List.forall_mem_cons.2 ⟨h.1, ih h.2⟩

theorem Place.allPieces_of_unbroken {p : Place} (h : Unbroken p.spell) :
    AllPieces Unbroken p.pieces := by
  rw [← p.spellAll_pieces] at h
  exact Emit.allPieces_of_unbroken h

/-- Where a value is written to, spelled without line feeds. -/
def Sink.Unbroken : Sink → Prop
  | .member object _ => Emit.Unbroken object.spell
  | .item _ => True

theorem Sink.Unbroken.allPieces {sink : Sink} (h : sink.Unbroken) :
    AllPieces Emit.Unbroken sink.pieces := by
  cases sink with
  | member object key => exact (allPieces_sinkMember key).2 (Place.allPieces_of_unbroken h)
  | item arr => exact allPieces_sinkItem arr

/-! ### Fields that are come to -/

section

variable {g : Graph} (hg : g.Unbroken)

include hg

theorem unbroken_inherited (way : List String) (bases : List Base) :
    ∀ f ∈ inherited g way bases, f.Unbroken := by
  have hinherits := inherits_inherited g way bases
  generalize inherited g way bases = fs at hinherits
  induction hinherits with
  | nil way => simp
  | unresolved _ _ ih => exact ih
  | met _ _ _ ih => exact ih
  | @base way b bs n above fs hn _ _ _ ihabove ih =>
    obtain ⟨id, -, hid⟩ := Option.bind_eq_some_iff.1 hn
    have hnode : n ∈ g.nodes := List.mem_of_getElem? hid
    rw [List.forall_mem_append, List.forall_mem_append]
    exact ⟨⟨ihabove, fun f hf => hg n hnode f (List.mem_of_mem_filter hf)⟩, ih⟩

theorem unbroken_flatten {id : NodeId} {n : Node} (hn : g.node? id = some n) :
    ∀ f ∈ flatten g n, f.Unbroken := by
  rw [flatten, List.forall_mem_append]
  exact ⟨unbroken_inherited hg _ _, hg n (List.mem_of_getElem? hn)⟩

/-- What is inside a field has no line feeds if the field has none. -/
theorem unbroken_inner {v : Visit} (hv : v.field.Unbroken) :
    ∀ w ∈ v.inner g, w.field.Unbroken := by
  have helement : ∀ e ∈ v.field.kind.children,
      ∀ w ∈ [(⟨v.top, v.pods, false, e⟩ : Visit)], w.field.Unbroken := by
    intro e he
    rw [List.forall_mem_singleton]
    exact hv.child he
  unfold Visit.inner
  cases hk : v.field.kind with
  | scalar s => simp
  | object => simp
  | pod =>
    cases hn : v.field.link.bind g.node? with
    | none => simp
    | some n =>
      obtain ⟨id, -, hid⟩ := Option.bind_eq_some_iff.1 hn
      exact List.forall_mem_map.2 (unbroken_flatten hg hid)
  | staticArray e => exact helement e (by simp [hk, Kind.children])
  | dynamicArray e lengthVar => exact helement e (by simp [hk, Kind.children])
  | vector e => exact helement e (by simp [hk, Kind.children])
  | set sorted e => exact helement e (by simp [hk, Kind.children])
  | map sorted k e => exact helement e (by simp [hk, Kind.children])

theorem Comes.unbroken {vs : List Visit} {w : Visit} (h : Comes g vs w)
    (hvs : ∀ v ∈ vs, v.field.Unbroken) : w.field.Unbroken := by
  induction h with
  | first v vs => exact hvs v List.mem_cons_self
  | @onward v w vs _ _ ih =>
    obtain ⟨hv, hrest⟩ := List.forall_mem_cons.1 hvs
    exact ih (List.forall_mem_append.2 ⟨unbroken_inner hg hv, hrest⟩)

/-- **What code takes over has no line feeds**, if no spelling in the graph and of the field has. -/
theorem Takes.unbroken {top : String} {pods : List String} {direct : Bool} {f : Field}
    (hf : f.Unbroken) {s : String} (h : Takes g [⟨top, pods, direct, f⟩] s) : Unbroken s := by
  obtain ⟨w, hw, hs⟩ := h
  have hfield : w.field.Unbroken := hw.unbroken hg (List.forall_mem_singleton.2 hf)
  have hself : w.field ∈ w.field.descendants := by
    rw [Field.descendants_eq]
    exact List.mem_cons_self
  refine hfield w.field hself s ?_
  unfold Visit.spellings at hs
  unfold Field.spellings
  rcases List.mem_append.1 hs with hs | hs
  · split at hs
    · rw [List.mem_singleton.1 hs]
      exact List.mem_cons_self
    · cases hs
  · cases hk : w.field.kind <;> simp_all

end

end Emit
end Marshal
