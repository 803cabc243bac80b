import Marshal.Proofs.Emit.Entered

/-!
# Private fields of bases

A type that is only inherited from gives its heirs the fields that they may name.  What else it has
cannot be seen in the code of an heir: only of the type itself, and of the plain records that are
written out on the way, all fields count.

## Main definitions

* `Inherits` — the fields that bases add, by rules.
* `Node.SameToHeirs`, `Graph.SameToHeirs` — nodes that differ in private fields at most.

## Main results

* `inherits_iff` — what is inherited follows the rules.
* `plan_of_sameToHeirs` — fields have one plan in both graphs.
* `private_fields_hidden` — the fields and the code of a node do not depend on private fields of
  bases.
-/

namespace Marshal

open Schema

namespace Schema

/-! ### Graphs that differ in private fields -/

/-- Two nodes that differ in private fields at most. -/
structure Node.SameToHeirs (n n' : Node) : Prop where
  name : n'.name = n.name
  policy : n'.policy = n.policy
  formats : n'.formats = n.formats
  bases : n'.bases = n.bases
  fields : n'.fields.filter (·.access ≠ .owner) = n.fields.filter (·.access ≠ .owner)

theorem Node.SameToHeirs.refl (n : Node) : n.SameToHeirs n := ⟨rfl, rfl, rfl, rfl, rfl⟩

/-- Two graphs whose nodes differ in private fields at most. -/
def Graph.SameToHeirs (g h : Graph) : Prop :=
  ∀ id, Option.Rel Node.SameToHeirs (g.node? id) (h.node? id)

section

variable {g h : Graph} (hsame : g.SameToHeirs h) {link : Option NodeId}

include hsame

theorem Graph.SameToHeirs.none (hn : link.bind g.node? = none) : link.bind h.node? = none := by
  cases link with
  | none => rfl
  | some id =>
    have hrel := hsame id
    rw [Option.bind_some] at hn ⊢
    rw [hn] at hrel
    cases hid : h.node? id with
    | none => rfl
    | some n' => rw [hid] at hrel; cases hrel

theorem Graph.SameToHeirs.some {n : Node} (hn : link.bind g.node? = some n) :
    ∃ n', link.bind h.node? = some n' ∧ n.SameToHeirs n' := by
  obtain ⟨id, rfl, hid⟩ := Option.bind_eq_some_iff.1 hn
  have hrel := hsame id
  rw [hid] at hrel
  cases hid' : h.node? id with
  | none => rw [hid'] at hrel; cases hrel
  | some n' =>
    rw [hid'] at hrel
    cases hrel with
    | some hnode => exact ⟨n', hid', hnode⟩

end

end Schema

namespace Emit

/-! ### What bases add -/

/-- The fields that bases add, where the names on `way` have been met: base by base, first those
that a base inherits, then its own but for those that are private. -/
inductive Inherits (g : Graph) : List String → List Base → List Field → Prop where
  | nil (way : List String) : Inherits g way [] []
  /-- A base that is not linked adds nothing. -/
  | unresolved {way : List String} {b : Base} {bs : List Base} {fs : List Field}
      (hn : b.link.bind g.node? = none) (hbs : Inherits g way bs fs) : Inherits g way (b :: bs) fs
  /-- Nor does one whose name has been met. -/
  | met {way : List String} {b : Base} {bs : List Base} {n : Node} {fs : List Field}
      (hn : b.link.bind g.node? = some n) (hw : n.name ∈ way) (hbs : Inherits g way bs fs) :
      Inherits g way (b :: bs) fs
  | base {way : List String} {b : Base} {bs : List Base} {n : Node} {above fs : List Field}
      (hn : b.link.bind g.node? = some n) (hw : n.name ∉ way)
      (habove : Inherits g (n.name :: way) n.bases above) (hbs : Inherits g way bs fs) :
      Inherits g way (b :: bs) (above ++ n.fields.filter (·.access ≠ .owner) ++ fs)

section

variable {g : Graph} {way : List String} {bases : List Base} {fs : List Field}

theorem inherits_inherited (g : Graph) (way : List String) (bases : List Base) :
    Inherits g way bases (inherited g way bases) := by
  induction way, bases using inherited.induct (g := g) with
  | case1 way =>
    rw [inherited_nil]
    exact .nil way
  | case2 way b bs ihnode ihrest =>
    rw [inherited_cons]
    cases hn : b.link.bind g.node? with
    | none =>
      rw [basePart_of_none hn]
      exact .unresolved hn ihrest
    | some n =>
      by_cases hw : n.name ∈ way
      · rw [basePart_of_mem hn hw]
        exact .met hn hw ihrest
      · rw [basePart_of_notMem hn hw]
        exact .base hn hw (ihnode n hn hw) ihrest

theorem Inherits.eq_inherited (h : Inherits g way bases fs) : fs = inherited g way bases := by
  induction h with
  | nil way => rw [inherited_nil]
  | unresolved hn _ ih => rw [inherited_cons, basePart_of_none hn, List.nil_append, ih]
  | met hn hw _ ih => rw [inherited_cons, basePart_of_mem hn hw, List.nil_append, ih]
  | base hn hw _ _ ihabove ih => rw [inherited_cons, basePart_of_notMem hn hw, ← ihabove, ← ih]

/-- What is inherited is what the rules say, and nothing else. -/
theorem inherits_iff : Inherits g way bases fs ↔ fs = inherited g way bases :=
  ⟨Inherits.eq_inherited, fun h => h ▸ inherits_inherited g way bases⟩

end

/-! ### Plans in graphs that differ in private fields -/

section

variable {g h : Graph} (hsame : g.SameToHeirs h)

include hsame

/-- Bases add the same fields. -/
theorem inherited_of_sameToHeirs (way : List String) (bases : List Base) :
    inherited h way bases = inherited g way bases := by
  induction way, bases using inherited.induct (g := g) with
  | case1 way => rw [inherited_nil, inherited_nil]
  | case2 way b bs ihnode ihrest =>
    rw [inherited_cons, inherited_cons, ihrest]
    cases hn : b.link.bind g.node? with
    | none => rw [basePart_of_none hn, basePart_of_none (hsame.none hn)]
    | some n =>
      obtain ⟨n', hn', hnode⟩ := hsame.some hn
      by_cases hw : n.name ∈ way
      · rw [basePart_of_mem hn hw, basePart_of_mem hn' (hnode.name ▸ hw)]
      · rw [basePart_of_notMem hn hw, basePart_of_notMem hn' (hnode.name ▸ hw), hnode.name,
          hnode.bases, hnode.fields, ihnode n hn hw]

theorem flatten_of_sameToHeirs (n : Node) : flatten h n = flatten g n := by
  rw [flatten, flatten, inherited_of_sameToHeirs hsame]

end

/-- The plain records that are entered among fields are the same in both graphs. -/
def Keeps (g h : Graph) : List Visit → Prop := AllEntered g fun id => h.node? id = g.node? id

section

variable {g h : Graph}

variable (hsame : g.SameToHeirs h)

include hsame

/-- A plain record adds the same members, given that its fields do. -/
theorem podPart_of_sameToHeirs {top : String} {pods owner : List String} {outer : String}
    {direct : Bool} {f : Field} (hk : f.kind = .pod)
    (hkeeps : Keeps g h [⟨top, pods, direct, f⟩])
    (ih : ∀ n : Node, f.link.bind g.node? = some n → n.name ∉ pods →
      Keeps g h (visitsIn top (n.name :: pods) (flatten g n)) →
      planMembers h top (n.name :: pods) owner outer (flatten g n) =
        planMembers g top (n.name :: pods) owner outer (flatten g n)) :
    podPart h top pods owner outer f = podPart g top pods owner outer f := by
  cases hn : f.link.bind g.node? with
  | none => rw [podPart_of_none g top hn, podPart_of_none h top (hsame.none hn)]
  | some n =>
    by_cases hw : n.name ∈ pods
    · obtain ⟨n', hn', hnode⟩ := hsame.some hn
      rw [podPart_of_mem g top hn hw, podPart_of_mem h top hn' (hnode.name ▸ hw), hnode.name]
    · -- the record is entered, so that it is the same one in both graphs
      obtain ⟨⟨id, hid, hnode, hnode'⟩, hfields⟩ := hkeeps.record hk hn hw
      have hn' : f.link.bind h.node? = some n := by
        rw [hid, Option.bind_some, hnode', hnode]
      rw [podPart_of_notMem g top hn hw, podPart_of_notMem h top hn' hw,
        flatten_of_sameToHeirs hsame]
      exact ih n hn hw hfields

/-- **Fields have one plan in both graphs**, or are stopped by the same obstacle. -/
theorem plan_of_sameToHeirs (top : String) :
    (∀ pods owner outer fs, Keeps g h (visitsIn top pods fs) →
      planMembers h top pods owner outer fs = planMembers g top pods owner outer fs) ∧
    (∀ pods owner outer f, Keeps g h [⟨top, pods, true, f⟩] →
      planMember h top pods owner outer f = planMember g top pods owner outer f) ∧
    (∀ pods direct f, Keeps g h [⟨top, pods, direct, f⟩] →
      planShape h top pods direct f = planShape g top pods direct f) := by
  refine planInduction g ?nil ?cons ?inline ?member ?scalar ?object ?record ?staticArray
    ?dynamicArray ?stray ?vector ?set ?map ?badKey
  case nil =>
    intro pods owner outer _
    rw [planMembers_nil, planMembers_nil]
  case cons =>
    intro pods owner outer f fs ihf ihfs hkeeps
    have hsplit : Keeps g h ([⟨top, pods, true, f⟩] ++ visitsIn top pods fs) := hkeeps
    rw [planMembers_cons, planMembers_cons, ihf hsplit.left]
    cases hf : planMember g top pods owner outer f with
    | error cause => rfl
    | ok ms => rw [ihfs (hsplit.right (meets_of_planMember_ok hf))]
  case inline =>
    intro pods owner outer f hk ih hkeeps
    rw [planMember_pod g top hk, planMember_pod h top hk]
    exact podPart_of_sameToHeirs hsame hk hkeeps ih
  case member =>
    intro pods owner outer f hk ih hkeeps
    rw [planMember_of_ne_pod g top hk, planMember_of_ne_pod h top hk, ih hkeeps]
  case scalar =>
    intro pods direct f s hk _
    rw [planShape_scalar g top pods direct hk, planShape_scalar h top pods direct hk]
  case object =>
    intro pods direct f hk _
    rw [planShape_object g top pods direct hk, planShape_object h top pods direct hk]
  case record =>
    intro pods direct f hk ih hkeeps
    rw [planShape_pod g top pods direct hk, planShape_pod h top pods direct hk,
      podPart_of_sameToHeirs hsame hk hkeeps ih]
  case staticArray =>
    intro pods direct f e hk ih hkeeps
    rw [planShape_staticArray g top pods direct hk, planShape_staticArray h top pods direct hk,
      ih (hkeeps.element (by simp only [Visit.obstacle?, hk]) (by simp only [Visit.inner, hk]))]
  case dynamicArray =>
    intro pods f e v hk ih hkeeps
    rw [planShape_dynamicArray g top pods true hk, planShape_dynamicArray h top pods true hk,
      ih (hkeeps.element (by simp only [Visit.obstacle?, hk, if_true])
        (by simp only [Visit.inner, hk]))]
  case stray =>
    intro pods f e v hk _
    rw [planShape_dynamicArray g top pods false hk, planShape_dynamicArray h top pods false hk]
    rfl
  case vector =>
    intro pods direct f e hk ih hkeeps
    rw [planShape_vector g top pods direct hk, planShape_vector h top pods direct hk,
      ih (hkeeps.element (by simp only [Visit.obstacle?, hk]) (by simp only [Visit.inner, hk]))]
  case set =>
    intro pods direct f sorted e hk ih hkeeps
    rw [planShape_set g top pods direct hk, planShape_set h top pods direct hk,
      ih (hkeeps.element (by simp only [Visit.obstacle?, hk]) (by simp only [Visit.inner, hk]))]
  case map =>
    intro pods direct f sorted k v s hk hs ih hkeeps
    rw [planShape_map g top pods direct hk hs, planShape_map h top pods direct hk hs,
      ih (hkeeps.element (by simp only [Visit.obstacle?, hk, hs, Kind.isScalar, if_true])
        (by simp only [Visit.inner, hk]))]
  case badKey =>
    intro pods direct f sorted k v hk hs _
    rw [planShape_map_of_ne_scalar g top pods direct hk hs,
      planShape_map_of_ne_scalar h top pods direct hk hs]

theorem plan_eq_of_sameToHeirs {fs : List Field} (hkeeps : Keeps g h (visits fs)) :
    plan h fs = plan g fs := by
  induction fs with
  | nil => rfl
  | cons f fs ih =>
    have hsplit : Keeps g h ([⟨f.serializedName, [], true, f⟩] ++ visits fs) := hkeeps
    rw [plan_cons, plan_cons,
      (plan_of_sameToHeirs hsame f.serializedName).2.1 [] [] "" f hsplit.left]
    cases hf : planMember g f.serializedName [] [] "" f with
    | error cause => rfl
    | ok ms => rw [ih (hsplit.right (meets_of_planMember_ok hf))]

end

/-- **Private fields of bases are hidden.**  What is written for a node are the fields that its
bases add, by the rules, and then all of its own; and however the private fields of nodes are
changed, the fields and the code of a node stay the same, or the reason why there is none, if the
node is not changed itself, nor are the plain records that are entered on the way. -/
theorem private_fields_hidden (g : Graph) (n : Node) :
    (∀ fs, flatten g n = fs ↔ ∃ above, Inherits g [n.name] n.bases above ∧
      fs = above ++ n.fields) ∧
    ∀ h : Graph, g.SameToHeirs h →
      (∀ id, Enters g (visits (flatten g n)) id → h.node? id = g.node? id) →
      flatten h n = flatten g n ∧ generate h n = generate g n := by
  refine ⟨fun fs => ?_, fun h hsame hkeeps => ?_⟩
  · simp only [inherits_iff, exists_eq_left]
    exact eq_comm
  · have hflatten := flatten_of_sameToHeirs hsame n
    refine ⟨hflatten, ?_⟩
    rw [generate, generate, hflatten, plan_eq_of_sameToHeirs hsame hkeeps]

/-- A type with a base and a plain record. -/
def gate : Node :=
  ⟨"Gate", .all, [], [⟨"hinge", "", .pod, "Bolt", .owner, some 2⟩], [⟨"Frame", some 1⟩]⟩

/-- The base of the type, with some private fields. -/
def frame (hidden : List Field) : Node :=
  ⟨"Frame", .all, [], hidden ++ [⟨"width", "", .scalar .int, "int", .heirs, none⟩], []⟩

/-- A plain record with a private field, and with a base. -/
def bolt : Node :=
  ⟨"Bolt", .pod, [], [⟨"tip", "", .scalar .bool, "bool", .owner, none⟩], [⟨"Rod", some 3⟩]⟩

/-- The base of the plain record, with some private fields. -/
def rod (hidden : List Field) : Node :=
  ⟨"Rod", .pod, [], ⟨"length", "", .scalar .double, "double", .anyone, none⟩ :: hidden, []⟩

/-- A graph with the four, with the private fields that the bases have. -/
def fence (hidden : List Field) : Graph := ⟨[gate, frame hidden, bolt, rod hidden]⟩

/-- Private fields which would be an obstacle. -/
def secrets : List Field :=
  [⟨"self", "", .pod, "Gate", .owner, some 0⟩, ⟨"lost", "", .pod, "Lost", .owner, none⟩]

theorem private_fields_hidden_fence :
    (flatten (fence []) gate).map (·.name) = ["width", "hinge"] ∧
    flatten (fence secrets) gate = flatten (fence []) gate ∧
    generate (fence secrets) gate = generate (fence []) gate ∧
    ∃ text, generate (fence []) gate = .ok text := by
  let width : Field := ⟨"width", "", .scalar .int, "int", .heirs, none⟩
  let hinge : Field := ⟨"hinge", "", .pod, "Bolt", .owner, some 2⟩
  let length : Field := ⟨"length", "", .scalar .double, "double", .anyone, none⟩
  let tip : Field := ⟨"tip", "", .scalar .bool, "bool", .owner, none⟩
  have hgate : flatten (fence []) gate = [width, hinge] := by cbv
  have hbolt : flatten (fence []) bolt = [length, tip] := by cbv
  have hsame : (fence []).SameToHeirs (fence secrets) := by
    intro id
    rcases id with _ | _ | _ | _ | id
    · exact .some (.refl gate)
    · exact .some ⟨rfl, rfl, rfl, rfl, rfl⟩
    · exact .some (.refl bolt)
    · exact .some ⟨rfl, rfl, rfl, rfl, rfl⟩
    · exact .none
  have hinner : Visit.inner (fence []) ⟨"hinge", [], true, hinge⟩ =
      [⟨"hinge", ["Bolt"], true, length⟩, ⟨"hinge", ["Bolt"], true, tip⟩] := by
    show (flatten (fence []) bolt).map _ = _
    rw [hbolt]
    rfl
  -- of all fields that are come to, only the hinge is a plain record, and the bolt is the same
  have hkeeps : ∀ id, Enters (fence []) (visits (flatten (fence []) gate)) id →
      (fence secrets).node? id = (fence []).node? id := by
    intro id hid
    rw [hgate] at hid
    obtain ⟨-, ⟨hk, -⟩ | hid⟩ := enters_cons.1 hid
    · cases hk
    obtain ⟨-, ⟨-, hlink⟩ | hid⟩ := enters_cons.1 hid
    · cases hlink
      rfl
    have hid : Enters (fence []) (Visit.inner (fence []) ⟨"hinge", [], true, hinge⟩ ++ []) id := hid
    rw [hinner] at hid
    obtain ⟨-, ⟨hk, -⟩ | hid⟩ := enters_cons.1 hid
    · cases hk
    obtain ⟨-, ⟨hk, -⟩ | hid⟩ := enters_cons.1 hid
    · cases hk
    exact absurd hid enters_nil
  have hplan : plan (fence []) (flatten (fence []) gate) =
      .ok [⟨[], "width", "width", .number "int"⟩,
        ⟨["hinge"], "length", "hinge.length", .number "double"⟩,
        ⟨["hinge"], "tip", "hinge.tip", .bool⟩] := by cbv
  obtain ⟨-, hhidden⟩ := private_fields_hidden (fence []) gate
  obtain ⟨hflatten, hgenerate⟩ := hhidden (fence secrets) hsame hkeeps
  have hok := generate_eq_ok.2 ⟨rfl, _, hplan, rfl⟩
  exact ⟨by rw [hgate]; rfl, hflatten, hgenerate, _, hok⟩

end Emit
end Marshal
