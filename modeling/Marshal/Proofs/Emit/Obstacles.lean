import Marshal.Proofs.Emit.Depth

/-!
# What stops the writing of code

Whether there is code for a node can be told from its fields alone.  They are come to in their
order, and each is followed, before the next, by what is inside it: the fields of a plain record,
the elements of a container.  At each there are few things that may be wrong, and the first that is
is why there is no code.  The walk that writes and the walk that reads come to the same fields, so
that the one succeeds when the other does.

## Main definitions

* `Visit` — a field that is come to.
* `Visit.obstacle?`, `Visit.inner` — what is wrong at it, and what is inside it.
* `Meets` — the first obstacle among fields and what is inside them, if there is one.

## Main results

* `Meets.unique` — there is one first obstacle.
* `plan_leads` — planning is stopped by it.
* `generate_stops` — when there is code for a node, and why not.
-/

namespace Marshal
namespace Emit

open Schema

/-! ### Fields that are come to -/

/-- A field that is come to. -/
structure Visit where
  /-- The serialized name of the outermost field. -/
  top : String
  /-- The names of the plain records that the field is inside of, innermost first. -/
  pods : List String
  /-- Whether it is a member of a record, and not an element of a container. -/
  direct : Bool
  /-- The field. -/
  field : Field
  deriving Repr, Inhabited

/-- What is wrong at a field, apart from what is inside it. -/
def Visit.obstacle? (g : Graph) (v : Visit) : Option Obstacle :=
  match v.field.kind with
  | .pod =>
      match v.field.link.bind g.node? with
      | none => some (.unresolvedPod v.top v.field.typeName)
      | some n => if n.name ∈ v.pods then some (.recursivePod n.name) else none
  | .dynamicArray _ _ => if v.direct then none else some (.strayArray v.top)
  | .map _ k _ => if k.kind.isScalar then none else some (.unsupportedKey v.top k.kind.name)
  | _ => none

/-- What is inside a field: the fields of a plain record, or the elements of a container. -/
def Visit.inner (g : Graph) (v : Visit) : List Visit :=
  match v.field.kind with
  | .pod =>
      match v.field.link.bind g.node? with
      | none => []
      | some n => (flatten g n).map fun f => ⟨v.top, n.name :: v.pods, true, f⟩
  | .staticArray e | .dynamicArray e _ | .vector e | .set _ e | .map _ _ e =>
      [⟨v.top, v.pods, false, e⟩]
  | .scalar _ | .object => []

/-- The first obstacle that is met among fields, each with what is inside it before the next; or
none. -/
inductive Meets (g : Graph) : List Visit → Option Obstacle → Prop where
  | done : Meets g [] none
  | stopped {v : Visit} {o : Obstacle} (h : v.obstacle? g = some o) (vs : List Visit) :
      Meets g (v :: vs) (some o)
  | onward {v : Visit} {vs : List Visit} {r : Option Obstacle} (h : v.obstacle? g = none)
      (hrest : Meets g (v.inner g ++ vs) r) : Meets g (v :: vs) r

/-- The fields of a node, where nothing is expanded yet. -/
def visits (fs : List Field) : List Visit := fs.map fun f => ⟨f.serializedName, [], true, f⟩

section

variable {g : Graph}

/-- There is one first obstacle, or none. -/
theorem Meets.unique {vs : List Visit} {r r' : Option Obstacle} (h : Meets g vs r)
    (h' : Meets g vs r') : r = r' := by
  induction h with
  | done =>
    cases h'
    rfl
  | stopped hv vs =>
    cases h' with
    | stopped hv' => rw [← hv, ← hv']
    | onward hv' => rw [hv] at hv'; cases hv'
  | onward hv _ ih =>
    cases h' with
    | stopped hv' => rw [hv] at hv'; cases hv'
    | onward _ hrest => exact ih hrest

/-- An object is left to its own routines, wherever its link leads. -/
theorem meets_object {v : Visit} (hv : v.field.kind = .object) {vs : List Visit}
    {r : Option Obstacle} : Meets g (v :: vs) r ↔ Meets g vs r := by
  have hnone : v.obstacle? g = none := by
    rw [Visit.obstacle?, hv]
  have hinner : v.inner g = [] := by
    rw [Visit.inner, hv]
  constructor
  · intro h
    cases h with
    | stopped h => rw [hnone] at h; cases h
    | onward _ hrest => rwa [hinner] at hrest
  · intro h
    refine .onward hnone ?_
    rwa [hinner]

/-! ### What planning is stopped by -/

/-- What a result says about fields: that they are passed by, or that an obstacle is met. -/
def Leads (g : Graph) {α : Type} : Except Obstacle α → List Visit → Prop
  | .ok _, vs => ∀ rest o, Meets g rest o → Meets g (vs ++ rest) o
  | .error cause, vs => ∀ rest, Meets g (vs ++ rest) (some cause)

variable {α β γ : Type} {r : Except Obstacle α} {vs vs' : List Visit}

theorem leads_nil (a : α) : Leads g (.ok a) [] := fun _ _ h => h

theorem Leads.seq {r' : Except Obstacle β} {f : α → β → γ} (h : Leads g r vs)
    (h' : Leads g r' vs') : Leads g (do let a ← r; return f a (← r')) (vs ++ vs') := by
  cases r with
  | error cause =>
    intro rest
    rw [List.append_assoc]
    exact h (vs' ++ rest)
  | ok a =>
    cases r' with
    | error cause =>
      intro rest
      rw [List.append_assoc]
      exact h _ _ (h' rest)
    | ok b =>
      intro rest o hrest
      rw [List.append_assoc]
      exact h _ _ (h' rest o hrest)

theorem Leads.made (make : α → β) (h : Leads g r vs) : Leads g (do return make (← r)) vs := by
  cases r with
  | error cause => exact h
  | ok a => exact h

theorem leads_stopped {v : Visit} {o : Obstacle} (h : v.obstacle? g = some o) :
    Leads g (.error o : Except Obstacle α) [v] := fun rest => .stopped h rest

theorem Leads.onward {v : Visit} (h : Leads g r vs) (hv : v.obstacle? g = none)
    (hinner : v.inner g = vs) : Leads g r [v] := by
  subst hinner
  cases r with
  | error cause => exact fun rest => .onward hv (h rest)
  | ok a => exact fun rest o hrest => .onward hv (h rest o hrest)

/-- A plain record leads where its fields lead. -/
theorem leads_podPart {top : String} {pods owner : List String} {outer : String} {f : Field}
    {direct : Bool} (hk : f.kind = .pod)
    (h : ∀ n, f.link.bind g.node? = some n → n.name ∉ pods →
      Leads g (planMembers g top (n.name :: pods) owner outer (flatten g n))
        ((flatten g n).map fun e => ⟨top, n.name :: pods, true, e⟩)) :
    Leads g (podPart g top pods owner outer f) [⟨top, pods, direct, f⟩] := by
  cases hn : f.link.bind g.node? with
  | none =>
    rw [podPart_of_none g top hn]
    refine leads_stopped ?_
    simp only [Visit.obstacle?, hk, hn]
  | some n =>
    by_cases hw : n.name ∈ pods
    · rw [podPart_of_mem g top hn hw]
      refine leads_stopped ?_
      simp only [Visit.obstacle?, hk, hn, if_pos hw]
    · rw [podPart_of_notMem g top hn hw]
      refine (h n hn hw).onward ?_ ?_
      · simp only [Visit.obstacle?, hk, hn, if_neg hw]
      · simp only [Visit.inner, hk, hn]

/-- **Planning is stopped by the first obstacle.** -/
theorem plan_leads (g : Graph) (top : String) :
    (∀ pods owner outer fs, Leads g (planMembers g top pods owner outer fs)
      (fs.map fun f => ⟨top, pods, true, f⟩)) ∧
    (∀ pods owner outer f, Leads g (planMember g top pods owner outer f) [⟨top, pods, true, f⟩]) ∧
    ∀ pods direct f, Leads g (planShape g top pods direct f) [⟨top, pods, direct, f⟩] := by
  refine planInduction g ?nil ?cons ?inline ?member ?scalar ?object ?record ?staticArray
    ?dynamicArray ?stray ?vector ?set ?map ?badKey
  case nil =>
    intro pods owner outer
    rw [planMembers_nil]
    exact leads_nil []
  case cons =>
    intro pods owner outer f fs ihf ihfs
    rw [planMembers_cons]
    exact ihf.seq ihfs
  case inline =>
    intro pods owner outer f hk ih
    rw [planMember_pod g top hk]
    exact leads_podPart hk ih
  case member =>
    intro pods owner outer f hk ih
    rw [planMember_of_ne_pod g top hk]
    exact ih.made _
  case scalar =>
    intro pods direct f s hk
    rw [planShape_scalar g top pods direct hk]
    refine (leads_nil _).onward ?_ ?_
    · simp only [Visit.obstacle?, hk]
    · simp only [Visit.inner, hk]
  case object =>
    intro pods direct f hk
    rw [planShape_object g top pods direct hk]
    refine (leads_nil _).onward ?_ ?_
    · simp only [Visit.obstacle?, hk]
    · simp only [Visit.inner, hk]
  case record =>
    intro pods direct f hk ih
    rw [planShape_pod g top pods direct hk]
    exact (leads_podPart hk ih).made _
  case staticArray =>
    intro pods direct f e hk ih
    rw [planShape_staticArray g top pods direct hk]
    refine (ih.made _).onward ?_ ?_
    · simp only [Visit.obstacle?, hk]
    · simp only [Visit.inner, hk]
  case dynamicArray =>
    intro pods f e v hk ih
    rw [planShape_dynamicArray g top pods true hk, if_pos rfl]
    refine (ih.made _).onward ?_ ?_
    · simp only [Visit.obstacle?, hk, if_true]
    · simp only [Visit.inner, hk]
  case stray =>
    intro pods f e v hk
    rw [planShape_dynamicArray g top pods false hk]
    refine leads_stopped ?_
    simp only [Visit.obstacle?, hk]
    rfl
  case vector =>
    intro pods direct f e hk ih
    rw [planShape_vector g top pods direct hk]
    refine (ih.made _).onward ?_ ?_
    · simp only [Visit.obstacle?, hk]
    · simp only [Visit.inner, hk]
  case set =>
    intro pods direct f sorted e hk ih
    rw [planShape_set g top pods direct hk]
    refine (ih.made _).onward ?_ ?_
    · simp only [Visit.obstacle?, hk]
    · simp only [Visit.inner, hk]
  case map =>
    intro pods direct f sorted k v s hk hs ih
    rw [planShape_map g top pods direct hk hs]
    refine (ih.made _).onward ?_ ?_
    · simp only [Visit.obstacle?, hk, hs, Kind.isScalar, if_true]
    · simp only [Visit.inner, hk]
  case badKey =>
    intro pods direct f sorted k v hk hs
    rw [planShape_map_of_ne_scalar g top pods direct hk hs]
    have hkey : k.kind.isScalar = false := by
      cases hkind : k.kind with
      | scalar s => exact absurd hkind (hs s)
      | _ => rfl
    refine leads_stopped ?_
    simp only [Visit.obstacle?, hk, hkey]
    rfl

theorem leads_plan (g : Graph) (fs : List Field) : Leads g (plan g fs) (visits fs) := by
  induction fs with
  | nil => exact leads_nil []
  | cons f fs ih =>
    rw [plan_cons]
    exact ((plan_leads g f.serializedName).2.1 [] [] "" f).seq ih

theorem meets_of_plan_error {fs : List Field} {cause : Obstacle} (h : plan g fs = .error cause) :
    Meets g (visits fs) (some cause) := by
  have hleads := leads_plan g fs
  rw [h] at hleads
  have hmeets := hleads []
  rwa [List.append_nil] at hmeets

theorem meets_of_plan_ok {fs : List Field} {ms : List (Member Shape)} (h : plan g fs = .ok ms) :
    Meets g (visits fs) none := by
  have hleads := leads_plan g fs
  rw [h] at hleads
  have hmeets := hleads [] none .done
  rwa [List.append_nil] at hmeets

/-- A plan is stopped by the first obstacle among its fields, and only by that. -/
theorem plan_eq_error_iff {fs : List Field} {cause : Obstacle} :
    plan g fs = .error cause ↔ Meets g (visits fs) (some cause) := by
  refine ⟨meets_of_plan_error, fun h => ?_⟩
  cases hplan : plan g fs with
  | error c => rw [Option.some.inj ((meets_of_plan_error hplan).unique h)]
  | ok ms => cases (meets_of_plan_ok hplan).unique h

theorem plan_eq_ok_iff {fs : List Field} :
    (∃ ms, plan g fs = .ok ms) ↔ Meets g (visits fs) none := by
  refine ⟨fun ⟨ms, h⟩ => meets_of_plan_ok h, fun h => ?_⟩
  cases hplan : plan g fs with
  | error c => cases (meets_of_plan_error hplan).unique h
  | ok ms => exact ⟨ms, rfl⟩

/-- When the walk that writes has gone through the fields of a type, so does the walk that
reads. -/
theorem readAll_of_writeAll {limit : Nat} (hlimit : g.nameCount ≤ limit) {fs : List Field}
    {object receiver : String} {steps : List Step} {top : String} {done : Unit × Direct.Emitter}
    (h : (Direct.writeAll g limit object receiver fs).run ⟨steps, [], top⟩ = .ok done)
    (object' source : String) (steps' : List Step) (top' : String) :
    ∃ done', (Direct.readAll g limit object' source fs).run ⟨steps', [], top'⟩ = .ok done' := by
  obtain ⟨topw, hwrite⟩ := Direct.doesAll_writeAll hlimit object receiver fs steps top
  obtain ⟨topr, hread⟩ := Direct.doesAll_readAll hlimit object' source fs steps' top'
  cases hplan : plan g fs with
  | error cause =>
    rw [hplan, h] at hwrite
    cases hwrite
  | ok ms =>
    rw [hplan] at hread
    exact ⟨_, hread⟩

/-- **When there is code for a node, and why not.**  There is none for a plain record; otherwise
the first obstacle among the fields that are written, each with what is inside it before the next,
is why there is none, and without an obstacle there is code.  Objects are never an obstacle,
wherever their links lead.  The walks that write and read without a plan come to the same result,
and the one that reads does not fail when the one that writes has not. -/
theorem generate_stops {id : NodeId} {n : Node} (hn : g.node? id = some n) :
    (n.isPod = true → generate g n = .error (.podNode n.name)) ∧
    (n.isPod = false →
      (∀ cause, generate g n = .error (.obstacle cause) ↔
        Meets g (visits (flatten g n)) (some cause)) ∧
      ((∃ text, generate g n = .ok text) ↔ Meets g (visits (flatten g n)) none)) ∧
    (∀ v vs r, v.field.kind = .object → (Meets g (v :: vs) r ↔ Meets g vs r)) ∧
    ∀ limit, g.nameCount ≤ limit →
      generateWithin g limit n = (generate g n).mapError .noCode ∧
      ∀ object receiver steps top done,
        (Direct.writeAll g limit object receiver (flatten g n)).run ⟨steps, [], top⟩ = .ok done →
        ∀ object' source steps' top', ∃ done',
          (Direct.readAll g limit object' source (flatten g n)).run ⟨steps', [], top'⟩ =
            .ok done' := by
  refine ⟨fun hpod => ?_, fun hpod => ⟨fun cause => ?_, ?_⟩, fun v vs r hv => meets_object hv,
    fun limit hlimit => ⟨generateWithin_eq hn hlimit, ?_⟩⟩
  · rw [generate, if_pos hpod]
  · rw [← plan_eq_error_iff, generate, if_neg (by simp [hpod])]
    cases plan g (flatten g n) with
    | error c => simp
    | ok ms => simp
  · rw [← plan_eq_ok_iff, generate, if_neg (by simp [hpod])]
    cases plan g (flatten g n) with
    | error c => simp
    | ok ms => simp
  · intro object receiver steps top done h
    exact readAll_of_writeAll hlimit h

end

/-- A type with an object of which nothing is known, a list of plain records, and a plain record of
which nothing is known. -/
def cabinet : Node :=
  ⟨"Cabinet", .all, [], [⟨"owner", "", .object, "Person", .anyone, none⟩,
    ⟨"boxes", "content", .vector ⟨"", "", .pod, "Box", .anyone, some 1⟩, "", .anyone, none⟩,
    ⟨"lamp", "", .pod, "Lamp", .anyone, none⟩], []⟩

/-- A plain record with a number, and with a map whose keys are objects. -/
def box : Node :=
  ⟨"Box", .pod, [], [⟨"size", "", .scalar .int, "int", .anyone, none⟩,
    ⟨"labels", "", .map true ⟨"", "", .object, "Label", .anyone, none⟩
      ⟨"", "", .scalar .int, "int", .anyone, none⟩, "", .anyone, none⟩], []⟩

/-- A graph with the two. -/
def house : Graph := ⟨[cabinet, box]⟩

theorem generate_stops_cabinet :
    generate house box = .error (.podNode "Box") ∧
    generate house cabinet = .error (.obstacle (.unsupportedKey "content" "object")) ∧
    generateWithin house 2 cabinet =
      .error (.noCode (.obstacle (.unsupportedKey "content" "object"))) := by
  have hcabinet : flatten house cabinet = cabinet.fields := by
    rw [flatten, cabinet, inherited_nil, List.nil_append]
  have hbox : flatten house box = box.fields := by
    rw [flatten, box, inherited_nil, List.nil_append]
  -- the owner is passed by, the boxes are opened, and there the labels are the first obstacle
  have hmeets : Meets house (visits (flatten house cabinet))
      (some (.unsupportedKey "content" "object")) := by
    rw [hcabinet]
    refine .onward rfl (.onward rfl (.onward rfl ?_))
    show Meets house ((flatten house box).map _ ++ _) _
    rw [hbox]
    exact .onward rfl (.stopped rfl _)
  obtain ⟨hpod, -⟩ := generate_stops (show house.node? 1 = some box from rfl)
  obtain ⟨-, hcode, -, hwalks⟩ := generate_stops (show house.node? 0 = some cabinet from rfl)
  have hgenerate := ((hcode rfl).1 _).2 hmeets
  refine ⟨hpod rfl, hgenerate, ?_⟩
  rw [(hwalks 2 (by decide)).1, hgenerate]
  rfl

end Emit
end Marshal
