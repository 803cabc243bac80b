import Marshal.Proofs.Data.Gives
import Marshal.Proofs.Schema.Sites
import Marshal.Schema.Session

/-!
# Descriptions that were read

A schema file spells references and cannot say what they are linked to.  So whatever a description
is read from, nothing in it is linked.

## Main definitions

* `Field.IsFresh`, `Description.IsFresh` — nothing is linked.
* `Description.IsRead` — a description that was read from some source of values.

## Main results

* `readKindWith_eq_ok`, `readFieldWith_eq_ok` — what kinds and fields are read of.
* `gives_field` — fields that are read are fresh.
* `Description.IsRead.isFresh` — descriptions that are read are fresh.
* `isRead_of_read` — what is read from the text of a file is a description that was read.
-/

namespace Marshal
namespace Schema

open Data

/-- Neither the field nor anything inside it is linked. -/
def Field.IsFresh (f : Field) : Prop := f.unlinked = f

theorem isFresh_mk {k : Kind Field} (h : ∀ e ∈ k.children, e.IsFresh) (n m t : String)
    (a : Access) : Field.IsFresh ⟨n, m, k, t, a, none⟩ := by
  simp only [Field.IsFresh, Field.unlinked] at h
  cases k <;> simp_all [Field.IsFresh, Field.unlinked, Field.mapAll, Field.mapInside, Kind.children]

/-! ### Fields -/

section

variable {σ : Type} [Source σ] {field : Value → Except Fault Field}

theorem need_eq_ok {α : Type} {missing : Missing} {place : Nat} {part : Option α} {a : α}
    (h : need missing place part = .ok a) : part = some a := by
  cases part with
  | none => exact absurd h (by simp [need])
  | some b => exact congrArg some (Except.ok.inj h)

/-- The field is one of those read of a kind. -/
def KindParts.Has (p : KindParts) (e : Field) : Prop :=
  p.element = some e ∨ p.key = some e ∨ p.value = some e

/-- Taking in a part of a kind adds no field but the one that is read of it. -/
theorem has_of_putKindPart {l : Layout} {p p' : KindParts} {place : Nat} {v : Value}
    (h : putKindPart field l p place v = .ok p') {e : Field} (he : p'.Has e) :
    p.Has e ∨ field v = .ok e := by
  unfold putKindPart at h
  split at h
  · obtain ⟨f, hf, h⟩ := bind_eq_ok.1 h
    obtain rfl := Except.ok.inj h
    rcases he with he | he
    · exact .inr (Option.some.inj he ▸ hf)
    · exact .inl (.inr he)
  · obtain ⟨_, -, h⟩ := bind_eq_ok.1 h
    obtain rfl := Except.ok.inj h
    exact .inl he
  · obtain ⟨f, hf, h⟩ := bind_eq_ok.1 h
    obtain rfl := Except.ok.inj h
    rcases he with he | he | he
    · exact .inl (.inl he)
    · exact .inr (Option.some.inj he ▸ hf)
    · exact .inl (.inr (.inr he))
  · obtain ⟨f, hf, h⟩ := bind_eq_ok.1 h
    obtain rfl := Except.ok.inj h
    rcases he with he | he | he
    · exact .inl (.inl he)
    · exact .inl (.inr (.inl he))
    · exact .inr (Option.some.inj he ▸ hf)
  · obtain rfl := Except.ok.inj h
    exact .inl he

/-- What is in a kind has been read of it. -/
theorem has_of_finish {k : Kind Unit} {missing : Missing} {p : KindParts} {out : Kind Field}
    (h : KindParts.finish k missing p = .ok out) : ∀ e ∈ out.children, p.Has e := by
  have helement : ∀ {e}, need missing 0 p.element = .ok e → p.Has e := fun he =>
    .inl (need_eq_ok he)
  cases k with
  | scalar s | object | pod =>
    obtain rfl := Except.ok.inj h
    simp [Kind.children]
  | staticArray _ | vector _ | set _ _ =>
    obtain ⟨e, he, h⟩ := bind_eq_ok.1 h
    obtain rfl := Except.ok.inj h
    simpa [Kind.children] using helement he
  | dynamicArray _ _ =>
    obtain ⟨e, he, h⟩ := bind_eq_ok.1 h
    obtain ⟨_, -, h⟩ := bind_eq_ok.1 h
    obtain rfl := Except.ok.inj h
    simpa [Kind.children] using helement he
  | map _ _ _ =>
    obtain ⟨key, hkey, h⟩ := bind_eq_ok.1 h
    obtain ⟨value, hvalue, h⟩ := bind_eq_ok.1 h
    obtain rfl := Except.ok.inj h
    have hkey : p.Has key := .inr (.inl (need_eq_ok hkey))
    have hvalue : p.Has value := .inr (.inr (need_eq_ok hvalue))
    simp [Kind.children, hkey, hvalue]

/-- A kind is tagged with its name, and what is in it is read of the parts of what is left. -/
theorem readKindWith_eq_ok {x : σ} {k : Kind Field} (h : readKindWith field x = .ok k) :
    ∃ title tag names i rest, readTagged title tag names x = .ok (i, rest) ∧
      ∀ e ∈ k.children, ∃ parts, Opens rest parts ∧ ∃ v ∈ parts, field v = .ok e := by
  have hnone (e : Field) : ¬KindParts.Has ⟨none, none, none, none⟩ e := by simp [KindParts.Has]
  unfold readKindWith at h
  obtain ⟨⟨i, rest⟩, htag, h⟩ := bind_eq_ok.1 h
  refine ⟨_, _, _, i, rest, htag, fun e he => ?_⟩
  simp only at h
  split at h
  · obtain ⟨_, -, h⟩ := bind_eq_ok.1 h
    exact absurd (has_of_finish h e he) (hnone e)
  · obtain ⟨parts, p, missing, hparts, hp, h⟩ := opens_of_readRecord h
    refine ⟨parts, hparts, ?_⟩
    -- every field taken in so far is read of one of the parts
    have hread : ∀ e, p.Has e → ∃ v ∈ parts, field v = .ok e := by
      refine hp.keeps (I := fun p => ∀ e, p.Has e → ∃ v ∈ parts, field v = .ok e)
        (fun e he => absurd he (hnone e)) fun p place v p' hv hread hput e he => ?_
      rcases has_of_putKindPart hput he with he | he
      · exact hread e he
      · exact ⟨v, hv, he⟩
    exact hread e (has_of_finish h e he)

/-- A field has no link, and its kind is read of one of its parts. -/
theorem readFieldWith_eq_ok {x : σ} {f : Field} (h : readFieldWith field x = .ok f) :
    f.link = none ∧ ∃ parts, Opens x parts ∧ ∃ v ∈ parts, readKindWith field v = .ok f.kind := by
  obtain ⟨parts, p, missing, hparts, hp, h⟩ := opens_of_readRecord h
  have hread : ∀ k, p.kind = some k → ∃ v ∈ parts, readKindWith field v = .ok k := by
    refine hp.keeps (I := fun p => ∀ k, p.kind = some k → ∃ v ∈ parts, readKindWith field v = .ok k)
      (by simp [FieldParts.none]) fun p place v p' hv hread hput => ?_
    unfold putFieldPart at hput
    split at hput <;> obtain ⟨part, hpart, hput⟩ := bind_eq_ok.1 hput <;>
      obtain rfl := Except.ok.inj hput
    case h_3 =>
      rintro k hk
      exact ⟨v, hv, Option.some.inj hk ▸ hpart⟩
    all_goals exact hread
  unfold FieldParts.finish at h
  split at h
  · exact absurd h (by simp)
  · rename_i k hk
    obtain rfl := Except.ok.inj h
    exact ⟨rfl, parts, hparts, hread k hk⟩

theorem gives_fieldWith (hfield : Gives field Field.IsFresh) :
    Gives (readFieldWith field : σ → _) Field.IsFresh := by
  intro x f hx
  obtain ⟨hlink, parts, -, v, -, hkind⟩ := readFieldWith_eq_ok hx
  obtain ⟨_, _, _, i, rest, -, hchildren⟩ := readKindWith_eq_ok hkind
  obtain ⟨name, formattedName, kind, typeName, access, link⟩ := f
  obtain rfl : link = none := hlink
  refine isFresh_mk (fun e he => ?_) _ _ _ _
  obtain ⟨_, -, w, -, hw⟩ := hchildren e he
  exact hfield w e hw

/-- **Fields that are read are fresh.** -/
theorem gives_field : Gives (readField : σ → _) Field.IsFresh := by
  have hvalue : ∀ levels, Gives (fieldOfValue levels) Field.IsFresh := by
    intro levels
    induction levels with
    | zero => exact fun x f h => absurd h (by simp [fieldOfValue])
    | succ levels ih => exact gives_fieldWith ih
  exact gives_fieldWith fun v f h => hvalue _ v f h

/-! ### Descriptions -/

/-- Nothing in a description is linked. -/
def Description.IsFresh (d : Description) : Prop :=
  ∀ t ∈ d.types, ∀ e ∈ t.fields, e.field.IsFresh

/-- A description that was read from some source of values. -/
def Description.IsRead (d : Description) : Prop :=
  ∃ (σ : Type) (_ : Source σ) (v : σ), readDescription v = .ok d

theorem gives_fieldEntry : Gives (readFieldEntry : σ → _) fun e => e.field.IsFresh := by
  intro x e h
  unfold readFieldEntry at h
  obtain ⟨⟨mark, others⟩, -, h⟩ := bind_eq_ok.1 h
  obtain ⟨f, hf, h⟩ := bind_eq_ok.1 h
  obtain rfl := Except.ok.inj h
  exact gives_field _ _ hf

theorem putTypePart_keeps (p : TypeParts) (place : Nat) (v : σ) (p' : TypeParts)
    (hp : ∀ e ∈ p.rest.fields, e.field.IsFresh) (h : putTypePart p place v = .ok p') :
    ∀ e ∈ p'.rest.fields, e.field.IsFresh := by
  unfold putTypePart at h
  split at h <;> obtain ⟨part, hpart, h⟩ := bind_eq_ok.1 h <;> obtain rfl := Except.ok.inj h
  case h_5 => exact gives_list gives_fieldEntry _ _ hpart
  all_goals exact hp

theorem gives_type : Gives (readType : σ → _) fun t => ∀ e ∈ t.fields, e.field.IsFresh := by
  refine gives_record (I := fun p : TypeParts => ∀ e ∈ p.rest.fields, e.field.IsFresh) (by simp)
    putTypePart_keeps fun missing p t hp h => ?_
  obtain ⟨name, -, h⟩ := bind_eq_ok.1 h
  obtain rfl := Except.ok.inj h
  exact hp

theorem gives_description : Gives (readDescription : σ → _) Description.IsFresh := by
  refine gives_record (I := Description.IsFresh) (by simp [Description.IsFresh]) ?_ ?_
  · intro d place v d' hd h
    unfold putDescriptionPart at h
    split at h <;> obtain ⟨part, hpart, h⟩ := bind_eq_ok.1 h <;> obtain rfl := Except.ok.inj h
    · exact hd
    · exact gives_list gives_type _ _ hpart
  · intro missing d d' hd h
    exact Except.ok.inj h ▸ hd

end

/-- **Descriptions that are read are fresh.** -/
theorem Description.IsRead.isFresh {d : Description} (h : d.IsRead) : d.IsFresh := by
  obtain ⟨σ, _, v, hv⟩ := h
  exact gives_description v d hv

/-- What is read from the text of a file is a description that was read. -/
theorem isRead_of_read {format : FileFormat} {text : String} {d : Description}
    (h : format.read text = .ok d) : d.IsRead := by
  cases format with
  | json =>
    obtain ⟨d', hd, h⟩ := bind_eq_ok.1 h
    have hsame : d' = d := by
      split at h
      · exact absurd h (by simp [throw, throwThe, MonadExceptOf.throw, bind, Except.bind])
      · exact Except.ok.inj h
    exact ⟨_, _, _, hsame ▸ hd⟩
  | toml =>
    simp only [FileFormat.read, Toml.read] at h
    split at h
    · exact absurd h (by simp)
    · exact ⟨_, _, _, h⟩

end Schema
end Marshal
