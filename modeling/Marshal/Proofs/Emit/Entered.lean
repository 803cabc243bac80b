import Marshal.Proofs.Emit.Obstacles

/-!
# Plain records that are entered

Planning goes through fields, each with what is inside it before the next, up to the first
obstacle.  On the way it enters plain records, whose fields are then written out.  Only those count
for what is planned; what comes after an obstacle does not.

## Main definitions

* `Comes` — the fields that are come to.
* `Enters` — the plain records that are entered.
* `AllEntered` — what holds of all of these.

## Main results

* `Enters.append_left`, `Enters.append_right`, `Enters.inside` — what is entered in a part of fields
  is entered in all of them.
* `AllEntered.record`, `AllEntered.element` — going on into a plain record, and into a container.
-/

namespace Marshal
namespace Emit

open Schema

/-- A field that is come to among fields: each is gone into before the next one, and none is come
to after the first obstacle. -/
inductive Comes (g : Graph) : List Visit → Visit → Prop where
  | first (v : Visit) (vs : List Visit) : Comes g (v :: vs) v
  | onward {v w : Visit} {vs : List Visit} (h : v.obstacle? g = none)
      (hrest : Comes g (v.inner g ++ vs) w) : Comes g (v :: vs) w

/-- A node is written out as a plain record among fields. -/
def Enters (g : Graph) (vs : List Visit) (id : NodeId) : Prop :=
  ∃ v, Comes g vs v ∧ v.field.kind = .pod ∧ v.field.link = some id ∧ v.obstacle? g = none

section

variable {g : Graph} {vs vs' : List Visit} {v w : Visit} {id : NodeId}

theorem Comes.append_left (h : Comes g vs w) (vs' : List Visit) : Comes g (vs ++ vs') w := by
  induction h with
  | first v vs => exact .first v _
  | onward hv _ ih =>
    refine .onward hv ?_
    rwa [List.append_assoc] at ih

/-- Fields without an obstacle are passed by. -/
theorem Comes.append_right (hvs : Meets g vs none) (h : Comes g vs' w) :
    Comes g (vs ++ vs') w := by
  generalize hr : (none : Option Obstacle) = r at hvs
  induction hvs with
  | done => exact h
  | stopped _ _ => cases hr
  | onward hv _ ih =>
    have hrest := ih hr
    rw [List.append_assoc] at hrest
    exact .onward hv hrest

theorem Enters.append_left (h : Enters g vs id) (vs' : List Visit) : Enters g (vs ++ vs') id := by
  obtain ⟨v, hv, hrest⟩ := h
  exact ⟨v, hv.append_left vs', hrest⟩

theorem Enters.append_right (hvs : Meets g vs none) (h : Enters g vs' id) :
    Enters g (vs ++ vs') id := by
  obtain ⟨v, hv, hrest⟩ := h
  exact ⟨v, hv.append_right hvs, hrest⟩

theorem enters_nil : ¬ Enters g [] id := by
  rintro ⟨v, hv, -⟩
  cases hv

/-- What is entered among fields is the first one, or inside it, or after it. -/
theorem enters_cons : Enters g (v :: vs) id ↔ v.obstacle? g = none ∧
    (v.field.kind = .pod ∧ v.field.link = some id ∨ Enters g (v.inner g ++ vs) id) := by
  constructor
  · rintro ⟨w, hw, hk, hid, hnone⟩
    cases hw with
    | first => exact ⟨hnone, .inl ⟨hk, hid⟩⟩
    | onward hv hrest => exact ⟨hv, .inr ⟨w, hrest, hk, hid, hnone⟩⟩
  · rintro ⟨hv, ⟨hk, hid⟩ | ⟨w, hw, hrest⟩⟩
    · exact ⟨v, .first v vs, hk, hid, hv⟩
    · exact ⟨w, .onward hv hw, hrest⟩

/-- What is entered inside a field is entered. -/
theorem Enters.inside (hv : v.obstacle? g = none) (h : Enters g (v.inner g) id) :
    Enters g [v] id :=
  enters_cons.2 ⟨hv, .inr (h.append_left [])⟩

end

/-- The fields of a record, all met under the same conditions. -/
def visitsIn (top : String) (pods : List String) (fs : List Field) : List Visit :=
  fs.map fun f => ⟨top, pods, true, f⟩

/-- Where a field has a plan, there is no obstacle. -/
theorem meets_of_planMember_ok {g : Graph} {top : String} {pods owner : List String}
    {outer : String} {f : Field} {ms : List (Member Shape)}
    (h : planMember g top pods owner outer f = .ok ms) :
    Meets g [⟨top, pods, true, f⟩] none := by
  have hleads := (plan_leads g top).2.1 pods owner outer f
  rw [h] at hleads
  exact hleads [] none .done

/-- All plain records that are entered among fields have a property. -/
def AllEntered (g : Graph) (P : NodeId → Prop) (vs : List Visit) : Prop :=
  ∀ id, Enters g vs id → P id

section

variable {g : Graph} {P : NodeId → Prop} {vs vs' : List Visit} {v : Visit}

theorem AllEntered.left (h : AllEntered g P (vs ++ vs')) : AllEntered g P vs :=
  fun id hid => h id (hid.append_left vs')

theorem AllEntered.right (h : AllEntered g P (vs ++ vs')) (hvs : Meets g vs none) :
    AllEntered g P vs' := fun id hid => h id (hid.append_right hvs)

theorem AllEntered.inside (h : AllEntered g P [v]) (hv : v.obstacle? g = none) :
    AllEntered g P (v.inner g) := fun id hid => h id (hid.inside hv)

variable {top : String} {pods : List String} {direct : Bool} {f : Field}

/-- What is in a container is gone into. -/
theorem AllEntered.element {e : Field} (h : AllEntered g P [⟨top, pods, direct, f⟩])
    (hobstacle : Visit.obstacle? g ⟨top, pods, direct, f⟩ = none)
    (hinner : Visit.inner g ⟨top, pods, direct, f⟩ = [⟨top, pods, false, e⟩]) :
    AllEntered g P [⟨top, pods, false, e⟩] := hinner ▸ h.inside hobstacle

/-- A plain record that is known, and not on the way already, is entered, and so are those among
its fields. -/
theorem AllEntered.record (h : AllEntered g P [⟨top, pods, direct, f⟩]) (hk : f.kind = .pod)
    {n : Node} (hn : f.link.bind g.node? = some n) (hw : n.name ∉ pods) :
    (∃ id, f.link = some id ∧ g.node? id = some n ∧ P id) ∧
      AllEntered g P (visitsIn top (n.name :: pods) (flatten g n)) := by
  have hv : Visit.obstacle? g ⟨top, pods, direct, f⟩ = none := by
    simp only [Visit.obstacle?, hk, hn, if_neg hw]
  have hinner : Visit.inner g ⟨top, pods, direct, f⟩ =
      visitsIn top (n.name :: pods) (flatten g n) := by
    simp only [Visit.inner, hk, hn, visitsIn]
  obtain ⟨id, hid, hnode⟩ := Option.bind_eq_some_iff.1 hn
  exact ⟨⟨id, hid, hnode, h id ⟨_, .first _ [], hk, hid, hv⟩⟩, hinner ▸ h.inside hv⟩

end

end Emit
end Marshal
