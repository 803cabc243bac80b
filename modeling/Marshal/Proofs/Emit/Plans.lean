import Marshal.Emit.Plan
import Marshal.Proofs.Data.Gives

/-!
# The equations of planning

Planning goes down the fields of a type, through containers, and from a plain record to the fields
of its own type.  Each step it can take, or be stopped at, is one equation.

## Main results

* `inherited_cons`, `basePart` — what one base adds.
* `planMember_pod`, `planMember_of_ne_pod`, `podPart` — what one field adds.
* `planShape_scalar`, …, `planShape_map` — the shape of a value, kind by kind.
* `planInduction` — what is kept when planning goes on holds of all that is planned.
-/

namespace Marshal
namespace Emit

open Schema

/-! ### Inherited fields -/

/-- What a base adds to the fields of a type, where the names on `way` have been met. -/
def basePart (g : Graph) (way : List String) (b : Base) : List Field :=
  match b.link.bind g.node? with
  | none => []
  | some n =>
      if n.name ∈ way then []
      else inherited g (n.name :: way) n.bases ++ n.fields.filter (·.access ≠ .owner)

theorem inherited_nil (g : Graph) (way : List String) : inherited g way [] = [] := by
  rw [inherited]

theorem inherited_cons (g : Graph) (way : List String) (b : Base) (bs : List Base) :
    inherited g way (b :: bs) = basePart g way b ++ inherited g way bs := by
  rw [inherited, basePart]
  split
  · next hn => simp [hn]
  · next n hn =>
    by_cases hw : n.name ∈ way <;> simp [hn, hw]

theorem basePart_of_none {g : Graph} {way : List String} {b : Base}
    (h : b.link.bind g.node? = none) : basePart g way b = [] := by
  rw [basePart, h]

theorem basePart_of_mem {g : Graph} {way : List String} {b : Base} {n : Node}
    (h : b.link.bind g.node? = some n) (hw : n.name ∈ way) : basePart g way b = [] := by
  simp only [basePart, h, if_pos hw]

theorem basePart_of_notMem {g : Graph} {way : List String} {b : Base} {n : Node}
    (h : b.link.bind g.node? = some n) (hw : n.name ∉ way) :
    basePart g way b =
      inherited g (n.name :: way) n.bases ++ n.fields.filter (·.access ≠ .owner) := by
  simp only [basePart, h, if_neg hw]

/-! ### Members and shapes -/

section

variable (g : Graph) (top : String)

theorem planMembers_nil (pods owner : List String) (outer : String) :
    planMembers g top pods owner outer [] = .ok [] := by
  rw [planMembers]

theorem planMembers_cons (pods owner : List String) (outer : String) (f : Field)
    (fs : List Field) :
    planMembers g top pods owner outer (f :: fs) = (do
      let members ← planMember g top pods owner outer f
      return members ++ (← planMembers g top pods owner outer fs)) := by
  rw [planMembers]

/-- The members of the plain record that a field refers to. -/
def podPart (pods owner : List String) (outer : String) (f : Field) :
    Except Obstacle (List (Member Shape)) :=
  match f.link.bind g.node? with
  | none => .error (.unresolvedPod top f.typeName)
  | some n =>
      if n.name ∈ pods then .error (.recursivePod n.name)
      else planMembers g top (n.name :: pods) owner outer (flatten g n)

theorem podPart_of_none {pods owner : List String} {outer : String} {f : Field}
    (h : f.link.bind g.node? = none) :
    podPart g top pods owner outer f = .error (.unresolvedPod top f.typeName) := by
  simp only [podPart, h]

theorem podPart_of_mem {pods owner : List String} {outer : String} {f : Field} {n : Node}
    (h : f.link.bind g.node? = some n) (hw : n.name ∈ pods) :
    podPart g top pods owner outer f = .error (.recursivePod n.name) := by
  simp only [podPart, h, if_pos hw]

theorem podPart_of_notMem {pods owner : List String} {outer : String} {f : Field} {n : Node}
    (h : f.link.bind g.node? = some n) (hw : n.name ∉ pods) :
    podPart g top pods owner outer f =
      planMembers g top (n.name :: pods) owner outer (flatten g n) := by
  simp only [podPart, h, if_neg hw]

theorem podPart_eq_ok {pods owner : List String} {outer : String} {f : Field}
    {ms : List (Member Shape)} :
    podPart g top pods owner outer f = .ok ms ↔ ∃ n, f.link.bind g.node? = some n ∧
      n.name ∉ pods ∧ planMembers g top (n.name :: pods) owner outer (flatten g n) = .ok ms := by
  constructor
  · intro h
    cases hn : f.link.bind g.node? with
    | none =>
      rw [podPart_of_none g top hn] at h
      cases h
    | some n =>
      by_cases hw : n.name ∈ pods
      · rw [podPart_of_mem g top hn hw] at h
        cases h
      · rw [podPart_of_notMem g top hn hw] at h
        exact ⟨n, rfl, hw, h⟩
  · rintro ⟨n, hn, hw, h⟩
    rw [podPart_of_notMem g top hn hw, h]

theorem planMember_pod {f : Field} (h : f.kind = .pod) (pods owner : List String)
    (outer : String) :
    planMember g top pods owner outer f =
      podPart g top pods (owner ++ [f.name]) (dotted outer f.serializedName) f := by
  rw [planMember, podPart]
  simp only [h]
  split
  · next hn => simp [hn]
  · next n hn =>
    by_cases hw : n.name ∈ pods <;> simp [hn, hw]

theorem planMember_of_ne_pod {f : Field} (h : f.kind ≠ .pod) (pods owner : List String)
    (outer : String) :
    planMember g top pods owner outer f = (do
      let shape ← planShape g top pods true f
      return [⟨owner, f.name, dotted outer f.serializedName, shape⟩]) := by
  rw [planMember]
  split
  · next hk => exact absurd hk h
  · rfl

variable {f : Field} (pods : List String) (direct : Bool)

theorem planShape_scalar {s : Scalar} (h : f.kind = .scalar s) :
    planShape g top pods direct f = .ok (.ofScalar f.typeName s) := by
  rw [planShape]
  split <;> simp_all

theorem planShape_object (h : f.kind = .object) :
    planShape g top pods direct f = .ok .object := by
  rw [planShape]
  split <;> simp_all

theorem planShape_pod (h : f.kind = .pod) :
    planShape g top pods direct f = (do return .record (← podPart g top pods [] "" f)) := by
  rw [planShape]
  split <;> simp_all only [reduceCtorEq]
  split
  · next hn =>
    rw [podPart_of_none g top hn]
    rfl
  · next n hn =>
    by_cases hw : n.name ∈ pods
    · rw [dif_pos hw, podPart_of_mem g top hn hw]
      rfl
    · rw [dif_neg hw, podPart_of_notMem g top hn hw]

theorem planShape_staticArray {e : Field} (h : f.kind = .staticArray e) :
    planShape g top pods direct f = (do return .staticArray (← planShape g top pods false e)) := by
  rw [planShape]
  split <;> simp_all

theorem planShape_dynamicArray {e : Field} {v : String} (h : f.kind = .dynamicArray e v) :
    planShape g top pods direct f =
      if direct then (do return .dynamicArray v (← planShape g top pods false e))
      else .error (.strayArray top) := by
  rw [planShape]
  split <;> simp_all

theorem planShape_vector {e : Field} (h : f.kind = .vector e) :
    planShape g top pods direct f = (do return .vector (← planShape g top pods false e)) := by
  rw [planShape]
  split <;> simp_all

theorem planShape_set {sorted : Bool} {e : Field} (h : f.kind = .set sorted e) :
    planShape g top pods direct f = (do return .set (← planShape g top pods false e)) := by
  rw [planShape]
  split <;> simp_all

theorem planShape_map {sorted : Bool} {k v : Field} (h : f.kind = .map sorted k v) {s : Scalar}
    (hk : k.kind = .scalar s) :
    planShape g top pods direct f = (do return .map s (← planShape g top pods false v)) := by
  rw [planShape]
  split <;> simp_all

theorem planShape_map_of_ne_scalar {sorted : Bool} {k v : Field} (h : f.kind = .map sorted k v)
    (hk : ∀ s, k.kind ≠ .scalar s) :
    planShape g top pods direct f = .error (.unsupportedKey top k.kind.name) := by
  rw [planShape]
  split <;> simp_all

end

/-! ### Plans -/

theorem plan_nil (g : Graph) : plan g [] = .ok [] := rfl

theorem plan_cons (g : Graph) (f : Field) (fs : List Field) :
    plan g (f :: fs) = do
      let ms ← planMember g f.serializedName [] [] "" f
      return ms ++ (← plan g fs) := by
  unfold plan
  rw [List.mapM_cons]
  cases planMember g f.serializedName [] [] "" f with
  | error cause => rfl
  | ok ms => cases fs.mapM fun f => planMember g f.serializedName [] [] "" f <;> rfl

/-! ### Going on as planning does -/

/-- What holds of fields, of single fields and of values, if it is kept when planning goes on: from
field to field, into containers, and into the plain records that it enters. -/
theorem planInduction (g : Graph) {M : List String → List String → String → List Field → Prop}
    {F : List String → List String → String → Field → Prop} {S : List String → Bool → Field → Prop}
    (nil : ∀ pods owner outer, M pods owner outer [])
    (cons : ∀ pods owner outer (f : Field) (fs : List Field), F pods owner outer f →
      M pods owner outer fs → M pods owner outer (f :: fs))
    (inline : ∀ pods owner outer (f : Field), f.kind = .pod →
      (∀ n : Node, f.link.bind g.node? = some n → n.name ∉ pods →
        M (n.name :: pods) (owner ++ [f.name]) (dotted outer f.serializedName) (flatten g n)) →
      F pods owner outer f)
    (member : ∀ pods owner outer (f : Field), f.kind ≠ .pod → S pods true f → F pods owner outer f)
    (scalar : ∀ pods direct (f : Field) (s : Scalar), f.kind = .scalar s → S pods direct f)
    (object : ∀ pods direct (f : Field), f.kind = .object → S pods direct f)
    (record : ∀ pods direct (f : Field), f.kind = .pod →
      (∀ n : Node, f.link.bind g.node? = some n → n.name ∉ pods →
        M (n.name :: pods) [] "" (flatten g n)) → S pods direct f)
    (staticArray : ∀ pods direct (f e : Field), f.kind = .staticArray e → S pods false e →
      S pods direct f)
    (dynamicArray : ∀ pods (f e : Field) (v : String), f.kind = .dynamicArray e v →
      S pods false e → S pods true f)
    (stray : ∀ pods (f e : Field) (v : String), f.kind = .dynamicArray e v → S pods false f)
    (vector : ∀ pods direct (f e : Field), f.kind = .vector e → S pods false e → S pods direct f)
    (set : ∀ pods direct (f : Field) (sorted : Bool) (e : Field), f.kind = .set sorted e →
      S pods false e → S pods direct f)
    (map : ∀ pods direct (f : Field) (sorted : Bool) (k v : Field) (s : Scalar),
      f.kind = .map sorted k v → k.kind = .scalar s → S pods false v → S pods direct f)
    (badKey : ∀ pods direct (f : Field) (sorted : Bool) (k v : Field), f.kind = .map sorted k v →
      (∀ s, k.kind ≠ .scalar s) → S pods direct f) :
    (∀ pods owner outer fs, M pods owner outer fs) ∧
    (∀ pods owner outer f, F pods owner outer f) ∧ ∀ pods direct f, S pods direct f := by
  -- a plain record that is not known, or on the way already, is not entered
  have hunknown : ∀ {f : Field} {pods : List String} {P : Node → Prop},
      f.link.bind g.node? = none →
      ∀ n, f.link.bind g.node? = some n → n.name ∉ pods → P n := by
    intro f pods P hn n hn'
    rw [hn] at hn'
    cases hn'
  have hentered : ∀ {f : Field} {pods : List String} {P : Node → Prop} {n : Node},
      f.link.bind g.node? = some n → (n.name ∉ pods → P n) →
      ∀ m, f.link.bind g.node? = some m → m.name ∉ pods → P m := by
    intro f pods P n hn h m hm hw
    obtain rfl : n = m := Option.some.inj (hn.symm.trans hm)
    exact h hw
  refine planMembers.mutual_induct g M F S nil cons ?_ ?_ ?_ member scalar object ?_ ?_ ?_
    staticArray dynamicArray ?_ vector set ?_ ?_
  · exact fun pods owner outer f hk hn => inline pods owner outer f hk (hunknown hn)
  · exact fun pods owner outer f hk n hn hw =>
      inline pods owner outer f hk (hentered hn fun h => absurd hw h)
  · exact fun pods owner outer f hk n hn hw ih =>
      inline pods owner outer f hk (hentered hn fun _ => ih)
  · exact fun pods direct f hk hn => record pods direct f hk (hunknown hn)
  · exact fun pods direct f hk n hn hw =>
      record pods direct f hk (hentered hn fun h => absurd hw h)
  · exact fun pods direct f hk n hn hw ih => record pods direct f hk (hentered hn fun _ => ih)
  · intro pods direct f e v hk hdirect
    rw [Bool.eq_false_iff.2 hdirect]
    exact stray pods f e v hk
  · exact fun pods direct f sorted k v hk s hs ih => map pods direct f sorted k v s hk hs ih
  · exact fun pods direct f sorted k v hk hs => badKey pods direct f sorted k v hk hs

end Emit
end Marshal
