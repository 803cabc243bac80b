import Marshal.Proofs.Emit.Plans
import Marshal.Proofs.Emit.Shapes

/-!
# What is written is what is read

The fields of a type are expanded through plain records to **leaves**: each with the way to it
and the key it is written under.  The routine that writes the type stores the leaves in its
receiver, in their order and each from its own place, and the routine that reads it takes the
same leaves, in the same order and each to its own place.

That is said without the plan: how leaves and values are written is read off the graph.

## Main definitions

* `Leaf`, `Expands` — the leaves of fields.
* `Form`, `Forms` — how values and leaves are written.

## Main results

* `Expands.unique`, `Forms.unique` — fields have one list of leaves, written in one way.
* `plan_form`, `plan_lays` — a plan writes the leaves of its fields.
* `generate_symmetric` — what is written is what is read.
-/

namespace Marshal
namespace Emit

open Schema

/-! ### Leaves -/

/-- A member that is no plain record, inside plain records or not. -/
structure Leaf where
  /-- The names that lead to it. -/
  path : List String
  /-- The key it is written under. -/
  key : String
  /-- What it is. -/
  field : Field
  deriving Repr, Inhabited

/-- The way to a leaf is spelled with dots. -/
theorem spell_follow (p : Place) (path : List String) :
    (p.follow path).spell = ".".intercalate (p.spell :: path) := by
  induction path generalizing p with
  | nil => rw [String.intercalate_singleton]; rfl
  | cons name path ih =>
    have hnext : (p.follow (name :: path)).spell =
        ".".intercalate ((p.spell ++ "." ++ name) :: path) := ih (.member p name)
    rw [hnext, String.intercalate_cons_append, String.intercalate_cons_cons]

/-- The leaves of fields, where `path` leads to the record with the fields and `outer` is the key
it has. -/
inductive Expands (g : Graph) : List String → String → List Field → List Leaf → Prop where
  | nil (path : List String) (outer : String) : Expands g path outer [] []
  | leaf {path : List String} {outer : String} {f : Field} {fs : List Field} {ls : List Leaf}
      (hk : f.kind ≠ .pod) (hfs : Expands g path outer fs ls) :
      Expands g path outer (f :: fs)
        (⟨path ++ [f.name], dotted outer f.serializedName, f⟩ :: ls)
  | pod {path : List String} {outer : String} {f : Field} {n : Node} {fs : List Field}
      {ls ls' : List Leaf} (hk : f.kind = .pod) (hn : f.link.bind g.node? = some n)
      (hpod : Expands g (path ++ [f.name]) (dotted outer f.serializedName) (flatten g n) ls)
      (hfs : Expands g path outer fs ls') :
      Expands g path outer (f :: fs) (ls ++ ls')

section

variable {g : Graph} {path : List String} {outer : String} {fs fs' : List Field}
  {ls ls' : List Leaf}

/-- Fields have one list of leaves. -/
theorem Expands.unique (h : Expands g path outer fs ls) (h' : Expands g path outer fs ls') :
    ls = ls' := by
  induction h generalizing ls' with
  | nil path outer => cases h'; rfl
  | leaf hk hfs ih =>
    cases h' with
    | leaf _ hfs' => rw [ih hfs']
    | pod hk' => exact absurd hk' hk
  | pod hk hn hpod hfs ihpod ih =>
    cases h' with
    | leaf hk' => exact absurd hk hk'
    | pod _ hn' hpod' hfs' =>
      obtain rfl := Option.some.inj (hn.symm.trans hn')
      rw [ihpod hpod', ih hfs']

theorem Expands.append (h : Expands g path outer fs ls) (h' : Expands g path outer fs' ls') :
    Expands g path outer (fs ++ fs') (ls ++ ls') := by
  induction h with
  | nil => exact h'
  | leaf hk hfs ih => exact .leaf hk (ih h')
  | pod hk hn hpod hfs ihpod ih =>
    rw [List.append_assoc]
    exact .pod hk hn hpod (ih h')

/-- No leaf is a plain record. -/
theorem Expands.kind_ne_pod (h : Expands g path outer fs ls) :
    ∀ leaf ∈ ls, leaf.field.kind ≠ .pod := by
  induction h with
  | nil => simp
  | leaf hk _ ih =>
    intro leaf hleaf
    rcases List.mem_cons.1 hleaf with rfl | hleaf
    · exact hk
    · exact ih leaf hleaf
  | pod _ _ _ _ ihpod ih =>
    intro leaf hleaf
    rcases List.mem_append.1 hleaf with hleaf | hleaf
    · exact ihpod leaf hleaf
    · exact ih leaf hleaf

end

/-! ### How leaves are written -/

/-- How a value without parts is written. -/
def Wire.ofScalar (s : Spot) : Scalar → Wire
  | .int | .float | .double => .number s
  | .bool => .bool s
  | .string => .text s

/-- What is in a container that is written as a list. -/
def listed : Kind Field → Option Field
  | .staticArray e | .dynamicArray e _ | .vector e | .set _ e => some e
  | _ => none

mutual

/-- How the value of a field is written that is found at a place. -/
inductive Form (g : Graph) : Field → Spot → Wire → Prop where
  | scalar {f : Field} {k : Scalar} (s : Spot) (hk : f.kind = .scalar k) :
      Form g f s (.ofScalar s k)
  | object {f : Field} (s : Spot) (hk : f.kind = .object) :
      Form g f s (.object [⟨.whole, false, .delegated s⟩])
  | pod {f : Field} {n : Node} {ls : List Leaf} {s : Spot} {parts : List (Part Wire)}
      (hk : f.kind = .pod) (hn : f.link.bind g.node? = some n)
      (hls : Expands g [] "" (flatten g n) ls) (hparts : Forms g s ls parts) :
      Form g f s (.object parts)
  | list {f e : Field} {s : Spot} {w : Wire} (hk : listed f.kind = some e)
      (he : Form g e (.element s) w) : Form g f s (.list [⟨.item, true, w⟩])
  | map {f key value : Field} {sorted : Bool} {k : Scalar} {s : Spot} {w : Wire}
      (hk : f.kind = .map sorted key value) (hkey : key.kind = .scalar k)
      (hvalue : Form g value (.element s) w) : Form g f s (.object [⟨.entry k s, true, w⟩])

/-- How leaves are written that are found in the record at a place. -/
inductive Forms (g : Graph) : Spot → List Leaf → List (Part Wire) → Prop where
  | nil (s : Spot) : Forms g s [] []
  | cons {s : Spot} {leaf : Leaf} {ls : List Leaf} {w : Wire} {parts : List (Part Wire)}
      (hleaf : Form g leaf.field (s.follow leaf.path) w) (hls : Forms g s ls parts) :
      Forms g s (leaf :: ls) (⟨.key leaf.key, false, w⟩ :: parts)

end

theorem Forms.append {g : Graph} {s : Spot} {ls ls' : List Leaf} {ps ps' : List (Part Wire)}
    (h : Forms g s ls ps) (h' : Forms g s ls' ps') : Forms g s (ls ++ ls') (ps ++ ps') := by
  induction ls generalizing ps with
  | nil => cases h; exact h'
  | cons leaf ls ih =>
    cases h with
    | cons hleaf hls => exact .cons hleaf (ih hls)

mutual

/-- A value is written in one way. -/
theorem Form.unique {g : Graph} {f : Field} {s : Spot} {w w' : Wire} (h : Form g f s w)
    (h' : Form g f s w') : w = w' := by
  cases h with
  | scalar s hk =>
    cases h' with
    | scalar s hk' =>
      rw [hk] at hk'
      cases hk'
      rfl
    | object s hk' | pod hk' | map hk' => rw [hk] at hk'; cases hk'
    | list hk' => rw [hk] at hk'; cases hk'
  | object s hk =>
    cases h' with
    | object s hk' => rfl
    | scalar s hk' | pod hk' | map hk' => rw [hk] at hk'; cases hk'
    | list hk' => rw [hk] at hk'; cases hk'
  | pod hk hn hls hparts =>
    cases h' with
    | pod hk' hn' hls' hparts' =>
      obtain rfl := Option.some.inj (hn.symm.trans hn')
      obtain rfl := hls.unique hls'
      rw [Forms.unique hparts hparts']
    | scalar s hk' | object s hk' | map hk' => rw [hk] at hk'; cases hk'
    | list hk' => rw [hk] at hk'; cases hk'
  | list hk he =>
    cases h' with
    | list hk' he' =>
      obtain rfl := Option.some.inj (hk.symm.trans hk')
      rw [Form.unique he he']
    | scalar s hk' | object s hk' | pod hk' | map hk' => rw [hk'] at hk; cases hk
  | map hk hkey hvalue =>
    cases h' with
    | map hk' hkey' hvalue' =>
      rw [hk] at hk'
      cases hk'
      rw [hkey] at hkey'
      cases hkey'
      rw [Form.unique hvalue hvalue']
    | scalar s hk' | object s hk' | pod hk' => rw [hk] at hk'; cases hk'
    | list hk' => rw [hk] at hk'; cases hk'

/-- Leaves are written in one way. -/
theorem Forms.unique {g : Graph} {s : Spot} {ls : List Leaf} {ps ps' : List (Part Wire)}
    (h : Forms g s ls ps) (h' : Forms g s ls ps') : ps = ps' := by
  cases h with
  | nil s =>
    cases h'
    rfl
  | cons hleaf hls =>
    cases h' with
    | cons hleaf' hls' => rw [Form.unique hleaf hleaf', Forms.unique hls hls']

end

theorem memberParts_append (s : Spot) (ms ms' : List (Member Shape)) :
    memberParts s (ms ++ ms') = memberParts s ms ++ memberParts s ms' := by
  induction ms with
  | nil => rfl
  | cons m ms ih => simp [memberParts, ih]

theorem wire_ofScalar (typeName : String) (s : Spot) (k : Scalar) :
    (Shape.ofScalar typeName k).wire s = .ofScalar s k := by
  cases k <;> rfl

theorem follow_append (s : Spot) (names : List String) (name : String) :
    s.follow (names ++ [name]) = .member (s.follow names) name := by
  simp [Spot.follow]

/-! ### Plans -/

section

variable (g : Graph) (top : String)

/-- Members write the leaves of fields. -/
def Lays (owner : List String) (outer : String) (fs : List Field)
    (ms : List (Member Shape)) : Prop :=
  ∃ ls, Expands g owner outer fs ls ∧ ∀ s, Forms g s ls (memberParts s ms)

variable {g} {top}

theorem Lays.append {owner : List String} {outer : String} {fs fs' : List Field}
    {ms ms' : List (Member Shape)} (h : Lays g owner outer fs ms)
    (h' : Lays g owner outer fs' ms') : Lays g owner outer (fs ++ fs') (ms ++ ms') := by
  obtain ⟨ls, hls, hforms⟩ := h
  obtain ⟨ls', hls', hforms'⟩ := h'
  refine ⟨ls ++ ls', hls.append hls', fun s => ?_⟩
  rw [memberParts_append]
  exact (hforms s).append (hforms' s)

variable (g) (top)

/-- **A plan writes the leaves of its fields**, and a shape is the form of its value. -/
theorem plan_form :
    (∀ pods owner outer fs, ∀ ms, planMembers g top pods owner outer fs = .ok ms →
      Lays g owner outer fs ms) ∧
    (∀ pods owner outer f, ∀ ms, planMember g top pods owner outer f = .ok ms →
      Lays g owner outer [f] ms) ∧
    (∀ pods direct f, ∀ shape, planShape g top pods direct f = .ok shape →
      ∀ s, Form g f s (shape.wire s)) := by
  refine planMembers.mutual_induct g
    (fun pods owner outer fs => ∀ ms, planMembers g top pods owner outer fs = .ok ms →
      Lays g owner outer fs ms)
    (fun pods owner outer f => ∀ ms, planMember g top pods owner outer f = .ok ms →
      Lays g owner outer [f] ms)
    (fun pods direct f => ∀ shape, planShape g top pods direct f = .ok shape →
      ∀ s, Form g f s (shape.wire s))
    ?_ ?_ ?_ ?_ ?_ ?_ ?_ ?_ ?_ ?_ ?_ ?_ ?_ ?_ ?_ ?_ ?_ ?_
  -- members, field by field
  · intro pods owner outer ms hms
    rw [planMembers_nil] at hms
    cases hms
    exact ⟨[], .nil owner outer, fun s => .nil s⟩
  · intro pods owner outer f fs ihf ihfs ms hms
    rw [planMembers_cons] at hms
    obtain ⟨ms₁, hf, hms⟩ := bind_eq_ok.1 hms
    obtain ⟨ms₂, hfs, hms⟩ := bind_eq_ok.1 hms
    cases hms
    exact (ihf ms₁ hf).append (ihfs ms₂ hfs)
  -- a plain record that is a member
  · intro pods owner outer f hk hn ms hms
    rw [planMember_pod g top hk, podPart_of_none g top hn] at hms
    cases hms
  · intro pods owner outer f hk n hn hw ms hms
    rw [planMember_pod g top hk, podPart_of_mem g top hn hw] at hms
    cases hms
  · intro pods owner outer f hk n hn hw ih ms hms
    rw [planMember_pod g top hk, podPart_of_notMem g top hn hw] at hms
    obtain ⟨ls, hls, hforms⟩ := ih ms hms
    refine ⟨ls ++ [], .pod hk hn hls (.nil owner outer), ?_⟩
    rwa [List.append_nil]
  · intro pods owner outer f hk ih ms hms
    rw [planMember_of_ne_pod g top hk] at hms
    obtain ⟨shape, hshape, hms⟩ := bind_eq_ok.1 hms
    cases hms
    refine ⟨_, .leaf hk (.nil owner outer), fun s => .cons ?_ (.nil s)⟩
    rw [follow_append]
    exact ih shape hshape _
  -- values without parts
  · intro pods direct f k hk shape hshape s
    rw [planShape_scalar g top pods direct hk] at hshape
    cases hshape
    rw [wire_ofScalar]
    exact .scalar s hk
  · intro pods direct f hk shape hshape s
    rw [planShape_object g top pods direct hk] at hshape
    cases hshape
    exact .object s hk
  -- a plain record inside a container
  · intro pods direct f hk hn shape hshape
    rw [planShape_pod g top pods direct hk, podPart_of_none g top hn] at hshape
    cases hshape
  · intro pods direct f hk n hn hw shape hshape
    rw [planShape_pod g top pods direct hk, podPart_of_mem g top hn hw] at hshape
    cases hshape
  · intro pods direct f hk n hn hw ih shape hshape s
    rw [planShape_pod g top pods direct hk, podPart_of_notMem g top hn hw] at hshape
    obtain ⟨ms, hms, hshape⟩ := bind_eq_ok.1 hshape
    cases hshape
    obtain ⟨ls, hls, hforms⟩ := ih ms hms
    exact .pod hk hn hls (hforms s)
  -- containers
  · intro pods direct f e hk ih shape hshape s
    rw [planShape_staticArray g top pods direct hk] at hshape
    obtain ⟨e', he, hshape⟩ := bind_eq_ok.1 hshape
    cases hshape
    exact .list (by rw [hk, listed]) (ih e' he _)
  · intro pods f e v hk ih shape hshape s
    rw [planShape_dynamicArray g top pods true hk, if_pos rfl] at hshape
    obtain ⟨e', he, hshape⟩ := bind_eq_ok.1 hshape
    cases hshape
    exact .list (by rw [hk, listed]) (ih e' he _)
  · intro pods direct f e v hk hdirect shape hshape
    rw [planShape_dynamicArray g top pods direct hk, if_neg hdirect] at hshape
    cases hshape
  · intro pods direct f e hk ih shape hshape s
    rw [planShape_vector g top pods direct hk] at hshape
    obtain ⟨e', he, hshape⟩ := bind_eq_ok.1 hshape
    cases hshape
    exact .list (by rw [hk, listed]) (ih e' he _)
  · intro pods direct f sorted e hk ih shape hshape s
    rw [planShape_set g top pods direct hk] at hshape
    obtain ⟨e', he, hshape⟩ := bind_eq_ok.1 hshape
    cases hshape
    exact .list (by rw [hk, listed]) (ih e' he _)
  · intro pods direct f sorted k v hk scalar hscalar ih shape hshape s
    rw [planShape_map g top pods direct hk hscalar] at hshape
    obtain ⟨v', hv, hshape⟩ := bind_eq_ok.1 hshape
    cases hshape
    exact .map hk hscalar (ih v' hv _)
  · intro pods direct f sorted k v hk hscalar shape hshape
    rw [planShape_map_of_ne_scalar g top pods direct hk hscalar] at hshape
    cases hshape

theorem plan_lays {fs : List Field} {ms : List (Member Shape)} (h : plan g fs = .ok ms) :
    Lays g [] "" fs ms := by
  obtain ⟨mss, hmss, hms⟩ := bind_eq_ok.1 h
  clear h
  cases hms
  -- every field is planned on its own, under its own name
  induction fs generalizing mss with
  | nil =>
    cases hmss
    exact ⟨[], .nil [] "", fun s => .nil s⟩
  | cons f fs ih =>
    rw [List.mapM_cons] at hmss
    obtain ⟨ms, hf, hmss⟩ := bind_eq_ok.1 hmss
    obtain ⟨rest, hfs, hmss⟩ := bind_eq_ok.1 hmss
    cases hmss
    exact ((plan_form g f.serializedName).2.1 [] [] "" f ms hf).append (ih rest hfs)

end

/-! ### Routines -/

/-- **What the code of a type writes is what it reads.**  The routine that writes it puts its
leaves into the receiver, in order, and puts nothing else anywhere; the routine that reads it takes
the same parts from its source, to the same places; and so it is in every plain record inside a
container. -/
theorem generate_symmetric {g : Graph} {n : Node} {text : String} (h : generate g n = .ok text) :
    ∃ leaves parts writer reader rest,
      Expands g [] "" (flatten g n) leaves ∧ (∀ leaf ∈ leaves, leaf.field.kind ≠ .pod) ∧
      Forms g .self leaves parts ∧
      text = Writer.text (routineSteps (writer :: reader :: rest)) ∧
      writer.signature = "static void JSONSerialize(JSONObject& jsonReceiver, const " ++ n.name ++
        "& objSource)" ∧
      Code.putsAll (.start "objSource") [] writer.body =
        parts.map (Prod.mk (.root "jsonReceiver")) ∧
      reader.signature = "static void JSONDeserialize(" ++ n.name ++
        "& objReceiver, const JSONObject& jsonSource)" ∧
      Code.takesAll (.start "objReceiver") reader.body =
        parts.map (Prod.mk (.root "jsonSource")) := by
  rw [generate] at h
  split at h
  · cases h
  · split at h
    · cases h
    · next ms hplan =>
      cases h
      obtain ⟨ls, hls, hforms⟩ := plan_lays g hplan
      have hputs := putsAll_writeMembers (.start "objSource") [] (.root "objSource")
        (.root "jsonReceiver") 0 ms [] trivial trivial
      have htakes := takesAll_readMembers (.start "objReceiver") (.root "objReceiver")
        (.root "jsonSource") 0 ms [] trivial
      rw [List.append_nil, putsAll_nil, List.nil_append] at hputs
      rw [List.append_nil, Code.takesAll, List.append_nil] at htakes
      exact ⟨ls, memberParts .self ms, objectWriter n.name ms, objectReader n.name ms, _, hls,
        hls.kind_ne_pod, hforms .self, rfl, rfl, hputs, rfl, htakes⟩

/-- A plain record. -/
def dot : Node :=
  ⟨"Dot", .pod, [], [⟨"x", "", .scalar .float, "float", .anyone, none⟩,
    ⟨"y", "", .scalar .float, "float", .anyone, none⟩], []⟩

/-- A type with a plain record, and with a list of them. -/
def curve : Node :=
  ⟨"Curve", .all, ["JSON"], [⟨"start", "", .pod, "Dot", .anyone, some 1⟩,
    ⟨"way", "", .vector ⟨"", "", .pod, "Dot", .anyone, some 1⟩, "", .anyone, none⟩], []⟩

/-- A graph with the two types. -/
def drawing : Graph := ⟨[curve, dot]⟩

/-- What is written of a curve. -/
def curveParts : List (Part Wire) :=
  [⟨.key "start.x", false, .number (.member (.member .self "start") "x")⟩,
    ⟨.key "start.y", false, .number (.member (.member .self "start") "y")⟩,
    ⟨.key "way", false, .list [⟨.item, true, .object
      [⟨.key "x", false, .number (.member (.element (.member .self "way")) "x")⟩,
        ⟨.key "y", false, .number (.member (.element (.member .self "way")) "y")⟩]⟩]⟩]

/-- The members of a curve. -/
def curveMembers : List (Member Shape) :=
  [⟨["start"], "x", "start.x", .number "float"⟩, ⟨["start"], "y", "start.y", .number "float"⟩,
    ⟨[], "way", "way", .vector (.record [⟨[], "x", "x", .number "float"⟩,
      ⟨[], "y", "y", .number "float"⟩])⟩]

/-- Lines that store a number under its key, in the object itself and in one in the list, and those
that read it from there. -/
def curveLines : List String :=
  ["\tjsonReceiver.AddMember(\"start.x\", JSONNumber(static_cast<double>(objSource.start.x)));\n",
    "\t\t\t\tobj_1.AddMember(\"x\", JSONNumber(static_cast<double>(item_0.x)));\n",
    "\tobjReceiver.start.x = " ++
      "static_cast<float>(jsonSource.GetMember(\"start.x\").as<JSONNumber>().value);\n",
    "\t\t\t\telem_0.x = static_cast<float>(obj_1.GetMember(\"x\").as<JSONNumber>().value);\n"]

theorem generate_symmetric_curve :
    ∃ text writer reader rest, generate drawing curve = .ok text ∧
      text = Writer.text (routineSteps (writer :: reader :: rest)) ∧
      Code.putsAll (.start "objSource") [] writer.body =
        curveParts.map (Prod.mk (.root "jsonReceiver")) ∧
      Code.takesAll (.start "objReceiver") reader.body =
        curveParts.map (Prod.mk (.root "jsonSource")) ∧
      ∃ lines, text = String.join lines ∧ curveLines.Sublist lines := by
  have hplan : plan drawing (flatten drawing curve) = .ok curveMembers := by
    cbv
  have htext : generate drawing curve = .ok (routinesText "Curve" curveMembers) :=
    generate_eq_ok.2 ⟨rfl, curveMembers, hplan, rfl⟩
  have hlines : curveLines.Sublist
      (Writer.run 0 (routineSteps (routines "Curve" curveMembers))).1 := by
    decide +kernel
  obtain ⟨leaves, parts, writer, reader, rest, hleaves, -, hparts, heq, -, hputs, -, htakes⟩ :=
    generate_symmetric htext
  let x : Field := ⟨"x", "", .scalar .float, "float", .anyone, none⟩
  let y : Field := ⟨"y", "", .scalar .float, "float", .anyone, none⟩
  let start : Field := ⟨"start", "", .pod, "Dot", .anyone, some 1⟩
  let way : Field := ⟨"way", "", .vector ⟨"", "", .pod, "Dot", .anyone, some 1⟩, "", .anyone, none⟩
  have hdot : ∀ path outer, Expands drawing path outer (flatten drawing dot)
      [⟨path ++ ["x"], dotted outer "x", x⟩, ⟨path ++ ["y"], dotted outer "y", y⟩] := by
    intro path outer
    rw [flatten, dot, inherited_nil]
    exact .leaf (f := x) (by simp [x]) (.leaf (f := y) (by simp [y]) (.nil path outer))
  have hcurve : Expands drawing [] "" (flatten drawing curve)
      [⟨["start", "x"], "start.x", x⟩, ⟨["start", "y"], "start.y", y⟩, ⟨["way"], "way", way⟩] := by
    have hway : Expands drawing [] "" [way] [⟨["way"], "way", way⟩] :=
      .leaf (by simp [way]) (.nil [] "")
    rw [flatten, curve, inherited_nil]
    exact Expands.pod (f := start) (n := dot) rfl rfl (hdot ["start"] "start") hway
  have hx : ∀ s, Form drawing x s (.number s) := fun s => Form.scalar (k := .float) s rfl
  have hy : ∀ s, Form drawing y s (.number s) := fun s => Form.scalar (k := .float) s rfl
  have hform : Forms drawing .self
      [⟨["start", "x"], "start.x", x⟩, ⟨["start", "y"], "start.y", y⟩, ⟨["way"], "way", way⟩]
      curveParts := by
    refine .cons (hx _) (.cons (hy _) (.cons (.list rfl ?_) (.nil .self)))
    exact .pod (n := dot) rfl rfl (hdot [] "") (.cons (hx _) (.cons (hy _) (.nil _)))
  obtain rfl := hleaves.unique hcurve
  obtain rfl := hparts.unique hform
  exact ⟨_, writer, reader, rest, htext, heq, hputs, htakes, _, rfl, hlines⟩

end Emit
end Marshal
