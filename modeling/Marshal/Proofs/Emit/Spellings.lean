import Marshal.Proofs.Emit.Entered

/-!
# Spellings that code takes over

Names of members, types of numbers and the members that hold lengths are written into the code as
the source file spells them.  All of them are found at fields that planning comes to; the keys of
members, which may be any text, are not among them.

## Main definitions

* `Visit.spellings` — what code takes over from a field.
* `Shape.spellings`, `memberSpellings` — what code takes over from a plan.
* `Takes` — what is taken over from fields that are come to.

## Main results

* `takes_of_plan` — a plan takes over nothing but what is at the fields that are come to.
-/

namespace Marshal
namespace Emit

open Schema

/-! ### Spellings of fields and of plans -/

/-- What code takes over from a field: its name, if it is a member, the type of a value without
parts, and the name of the member with the length of an array. -/
def Visit.spellings (v : Visit) : List String :=
  (if v.direct then [v.field.name] else []) ++
    match v.field.kind with
    | .scalar _ => [v.field.typeName]
    | .dynamicArray _ lengthVar => [lengthVar]
    | _ => []

mutual

/-- What code takes over from a shape. -/
def Shape.spellings : Shape → List String
  | .number typeName => [typeName]
  | .bool | .text | .object => []
  | .record ms => memberSpellings ms
  | .dynamicArray lengthVar e => lengthVar :: e.spellings
  | .staticArray e | .vector e | .set e | .map _ e => e.spellings

/-- What code takes over from members. -/
def memberSpellings : List (Member Shape) → List String
  | [] => []
  | ⟨owner, name, _, shape⟩ :: ms => owner ++ name :: shape.spellings ++ memberSpellings ms

end

@[simp] theorem memberSpellings_append (ms ms' : List (Member Shape)) :
    memberSpellings (ms ++ ms') = memberSpellings ms ++ memberSpellings ms' := by
  induction ms with
  | nil => rfl
  | cons m ms ih => simp [memberSpellings, ih]

theorem spellings_ofScalar (typeName : String) (s : Scalar) :
    (Shape.ofScalar typeName s).spellings ⊆ [typeName] := by
  cases s <;> simp [Shape.ofScalar, Shape.spellings]

/-! ### Spellings at fields that are come to -/

/-- A spelling is taken over from a field that is come to. -/
def Takes (g : Graph) (vs : List Visit) (spelling : String) : Prop :=
  ∃ v, Comes g vs v ∧ spelling ∈ v.spellings

section

variable {g : Graph} {vs vs' : List Visit} {v : Visit} {spelling : String}

theorem Takes.append_left (h : Takes g vs spelling) (vs' : List Visit) :
    Takes g (vs ++ vs') spelling := by
  obtain ⟨v, hv, hspelling⟩ := h
  exact ⟨v, hv.append_left vs', hspelling⟩

theorem Takes.append_right (hvs : Meets g vs none) (h : Takes g vs' spelling) :
    Takes g (vs ++ vs') spelling := by
  obtain ⟨v, hv, hspelling⟩ := h
  exact ⟨v, hv.append_right hvs, hspelling⟩

/-- What is taken over among fields is at the first one, or inside it, or after it. -/
theorem takes_cons : Takes g (v :: vs) spelling ↔ spelling ∈ v.spellings ∨
    v.obstacle? g = none ∧ Takes g (v.inner g ++ vs) spelling := by
  constructor
  · rintro ⟨w, hw, hspelling⟩
    cases hw with
    | first => exact .inl hspelling
    | onward hv hrest => exact .inr ⟨hv, w, hrest, hspelling⟩
  · rintro (hspelling | ⟨hv, w, hw, hspelling⟩)
    · exact ⟨v, .first v vs, hspelling⟩
    · exact ⟨w, .onward hv hw, hspelling⟩

theorem takes_nil : ¬ Takes g [] spelling := by
  rintro ⟨v, hv, -⟩
  cases hv

theorem takes_self (h : spelling ∈ v.spellings) : Takes g [v] spelling := takes_cons.2 (.inl h)

theorem Takes.inside (hv : v.obstacle? g = none) (h : Takes g (v.inner g) spelling) :
    Takes g [v] spelling := takes_cons.2 (.inr ⟨hv, h.append_left []⟩)

variable {top : String} {pods : List String} {direct : Bool} {f : Field}

/-- What is taken over from what is in a container. -/
theorem Takes.element {e : Field} (h : Takes g [⟨top, pods, false, e⟩] spelling)
    (hobstacle : Visit.obstacle? g ⟨top, pods, direct, f⟩ = none)
    (hinner : Visit.inner g ⟨top, pods, direct, f⟩ = [⟨top, pods, false, e⟩]) :
    Takes g [⟨top, pods, direct, f⟩] spelling := Takes.inside hobstacle (hinner ▸ h)

/-- What is taken over from the fields of a plain record that is entered. -/
theorem Takes.record (hk : f.kind = .pod) {n : Node} (hn : f.link.bind g.node? = some n)
    (hw : n.name ∉ pods) (h : Takes g (visitsIn top (n.name :: pods) (flatten g n)) spelling) :
    Takes g [⟨top, pods, direct, f⟩] spelling := by
  refine Takes.inside (by simp only [Visit.obstacle?, hk, hn, if_neg hw]) ?_
  simpa only [Visit.inner, hk, hn, visitsIn] using h

end

/-! ### Spellings of a plan -/

/-- What a plan takes over, be it of fields, of one field or of a value, is at the fields that are
come to; the names that lead to a member have been come to before. -/
theorem takes_of_planned (g : Graph) (top : String) :
    (∀ pods owner outer fs ms, planMembers g top pods owner outer fs = .ok ms →
      ∀ s ∈ memberSpellings ms, s ∈ owner ∨ Takes g (visitsIn top pods fs) s) ∧
    (∀ pods owner outer f ms, planMember g top pods owner outer f = .ok ms →
      ∀ s ∈ memberSpellings ms, s ∈ owner ∨ Takes g [⟨top, pods, true, f⟩] s) ∧
    ∀ pods direct f shape, planShape g top pods direct f = .ok shape →
      ∀ s ∈ shape.spellings, Takes g [⟨top, pods, direct, f⟩] s := by
  refine planInduction g ?nil ?cons ?inline ?member ?scalar ?object ?record ?staticArray
    ?dynamicArray ?stray ?vector ?set ?map ?badKey
  case nil =>
    intro pods owner outer ms hms s hs
    rw [planMembers_nil] at hms
    cases hms
    cases hs
  case cons =>
    intro pods owner outer f fs ihf ihfs ms hms s hs
    rw [planMembers_cons] at hms
    obtain ⟨ms₁, hf, hms⟩ := bind_eq_ok.1 hms
    obtain ⟨ms₂, hfs, hms⟩ := bind_eq_ok.1 hms
    cases hms
    rw [memberSpellings_append, List.mem_append] at hs
    rcases hs with hs | hs
    · exact (ihf ms₁ hf s hs).imp_right fun h => h.append_left (visitsIn top pods fs)
    · exact (ihfs ms₂ hfs s hs).imp_right (Takes.append_right (meets_of_planMember_ok hf))
  case inline =>
    intro pods owner outer f hk ih ms hms s hs
    rw [planMember_pod g top hk] at hms
    obtain ⟨n, hn, hw, hms⟩ := (podPart_eq_ok g top).1 hms
    rcases ih n hn hw ms hms s hs with howner | h
    · rcases List.mem_append.1 howner with howner | hname
      · exact .inl howner
      · exact .inr (takes_self (List.mem_append_left _ hname))
    · exact .inr (h.record hk hn hw)
  case member =>
    intro pods owner outer f hk ih ms hms s hs
    rw [planMember_of_ne_pod g top hk] at hms
    obtain ⟨shape, hshape, hms⟩ := bind_eq_ok.1 hms
    cases hms
    simp only [memberSpellings, List.append_nil, List.mem_append, List.mem_cons] at hs
    rcases hs with howner | rfl | hs
    · exact .inl howner
    · exact .inr (takes_self (List.mem_append_left _ List.mem_cons_self))
    · exact .inr (ih shape hshape s hs)
  case scalar =>
    intro pods direct f t hk shape hshape s hs
    rw [planShape_scalar g top pods direct hk] at hshape
    cases hshape
    refine takes_self (List.mem_append_right _ ?_)
    simpa only [hk] using spellings_ofScalar f.typeName t hs
  case object =>
    intro pods direct f hk shape hshape s hs
    rw [planShape_object g top pods direct hk] at hshape
    cases hshape
    cases hs
  case record =>
    intro pods direct f hk ih shape hshape s hs
    rw [planShape_pod g top pods direct hk] at hshape
    obtain ⟨ms, hms, hshape⟩ := bind_eq_ok.1 hshape
    cases hshape
    obtain ⟨n, hn, hw, hms⟩ := (podPart_eq_ok g top).1 hms
    have htakes := (ih n hn hw ms hms s hs).resolve_left List.not_mem_nil
    exact htakes.record hk hn hw
  case staticArray =>
    intro pods direct f e hk ih shape hshape s hs
    rw [planShape_staticArray g top pods direct hk] at hshape
    obtain ⟨shape', he, hshape⟩ := bind_eq_ok.1 hshape
    cases hshape
    exact (ih shape' he s hs).element (by simp only [Visit.obstacle?, hk])
      (by simp only [Visit.inner, hk])
  case dynamicArray =>
    intro pods f e v hk ih shape hshape s hs
    rw [planShape_dynamicArray g top pods true hk, if_pos rfl] at hshape
    obtain ⟨shape', he, hshape⟩ := bind_eq_ok.1 hshape
    cases hshape
    rcases List.mem_cons.1 hs with rfl | hs
    · refine takes_self (List.mem_append_right _ ?_)
      simp only [hk, List.mem_singleton]
    · exact (ih shape' he s hs).element (by simp only [Visit.obstacle?, hk, if_true])
        (by simp only [Visit.inner, hk])
  case stray =>
    intro pods f e v hk shape hshape
    rw [planShape_dynamicArray g top pods false hk] at hshape
    cases hshape
  case vector =>
    intro pods direct f e hk ih shape hshape s hs
    rw [planShape_vector g top pods direct hk] at hshape
    obtain ⟨shape', he, hshape⟩ := bind_eq_ok.1 hshape
    cases hshape
    exact (ih shape' he s hs).element (by simp only [Visit.obstacle?, hk])
      (by simp only [Visit.inner, hk])
  case set =>
    intro pods direct f sorted e hk ih shape hshape s hs
    rw [planShape_set g top pods direct hk] at hshape
    obtain ⟨shape', he, hshape⟩ := bind_eq_ok.1 hshape
    cases hshape
    exact (ih shape' he s hs).element (by simp only [Visit.obstacle?, hk])
      (by simp only [Visit.inner, hk])
  case map =>
    intro pods direct f sorted k v t hk hkey ih shape hshape s hs
    rw [planShape_map g top pods direct hk hkey] at hshape
    obtain ⟨shape', he, hshape⟩ := bind_eq_ok.1 hshape
    cases hshape
    exact (ih shape' he s hs).element
      (by simp only [Visit.obstacle?, hk, hkey, Kind.isScalar, if_true])
      (by simp only [Visit.inner, hk])
  case badKey =>
    intro pods direct f sorted k v hk hkey shape hshape
    rw [planShape_map_of_ne_scalar g top pods direct hk hkey] at hshape
    cases hshape

/-- **A plan takes over nothing but what is at the fields that are come to.** -/
theorem takes_of_plan {g : Graph} {fs : List Field} {ms : List (Member Shape)}
    (h : plan g fs = .ok ms) : ∀ s ∈ memberSpellings ms, Takes g (visits fs) s := by
  induction fs generalizing ms with
  | nil =>
    cases h
    intro s hs
    cases hs
  | cons f fs ih =>
    rw [plan_cons] at h
    obtain ⟨ms₁, hf, h⟩ := bind_eq_ok.1 h
    obtain ⟨ms₂, hfs, h⟩ := bind_eq_ok.1 h
    cases h
    intro s hs
    rw [memberSpellings_append, List.mem_append] at hs
    rcases hs with hs | hs
    · have htakes := (takes_of_planned g f.serializedName).2.1 [] [] "" f ms₁ hf s hs
      exact (htakes.resolve_left List.not_mem_nil).append_left (visits fs)
    · exact (ih hfs s hs).append_right (meets_of_planMember_ok hf)

end Emit
end Marshal
