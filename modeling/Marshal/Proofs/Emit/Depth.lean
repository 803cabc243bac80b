import Marshal.Proofs.Emit.Direct

/-!
# How deep a walk goes

A base is followed, and a plain record entered, only if its name is not on the way yet.  Each
therefore uses up one name of the graph, so that a walk whose limit is the number of names in the
graph is never cut short, whatever cycles the links make.  It writes what the plan of the fields
says, or is stopped where planning is.

## Main definitions

* `Direct.Does`, `Direct.DoesAll` — what a part of a walk writes, or is stopped by.

## Main results

* `Direct.does_write`, `Direct.does_read` — the walks do what planning and spelling do.
* `generateWithin_eq` — the text written by the walks is that of the plan.
* `walks_end` — no walk is cut short.
-/

namespace Marshal
namespace Emit

open Schema

/-! ### Spelling one after the other -/

@[simp] theorem Code.stepsAll_append (cs cs' : List Code) :
    Code.stepsAll (cs ++ cs') = Code.stepsAll cs ++ Code.stepsAll cs' := by
  induction cs with
  | nil => rfl
  | cons c cs ih => rw [List.cons_append, Code.stepsAll, Code.stepsAll, ih, List.append_assoc]

theorem writeMembers_append (object receiver : Place) (depth : Nat)
    (ms ms' : List (Member Shape)) :
    writeMembers object receiver depth (ms ++ ms') =
      writeMembers object receiver depth ms ++ writeMembers object receiver depth ms' := by
  induction ms with
  | nil => rfl
  | cons m ms ih => rw [List.cons_append, writeMembers, writeMembers, ih, List.append_assoc]

theorem readMembers_append (object source : Place) (depth : Nat) (ms ms' : List (Member Shape)) :
    readMembers object source depth (ms ++ ms') =
      readMembers object source depth ms ++ readMembers object source depth ms' := by
  induction ms with
  | nil => rfl
  | cons m ms ih => rw [List.cons_append, readMembers, readMembers, ih, List.append_assoc]

theorem follow_concat (p : Place) (names : List String) (name : String) :
    p.follow (names ++ [name]) = .member (p.follow names) name := by
  rw [Place.follow, List.foldl_append]
  rfl

/-! ### What a walk writes -/

namespace Direct

/-- What comes of steps and what is written after them, or of an obstacle. -/
def outcome (steps : List Step) (pods : List String) (top : String) :
    Except Obstacle (List Step) → Except Stop (Unit × Emitter)
  | .ok more => .ok ((), ⟨steps ++ more, pods, top⟩)
  | .error cause => .error (.noCode (.obstacle cause))

/-- What a part of a walk does while the plain records `pods` are being written out and the
outermost field is `top`: it writes steps and leaves the rest as it is, or it is stopped. -/
def Does (w : Emission Unit) (pods : List String) (top : String)
    (r : Except Obstacle (List Step)) : Prop :=
  ∀ steps, w.run ⟨steps, pods, top⟩ = outcome steps pods top r

variable {pods : List String} {top : String} {r r' : Except Obstacle (List Step)}
  {w w' : Emission Unit}

theorem does_nothing : Does (pure ()) pods top (.ok []) := by
  intro steps
  rw [outcome, List.append_nil]
  rfl

theorem does_put (more : List Step) : Does (put more) pods top (.ok more) := fun _ => rfl

theorem does_obstruct (cause : String → Obstacle) :
    Does (obstruct cause) pods top (.error (cause top)) := fun _ => rfl

/-- One part after the other. -/
theorem Does.seq (h : Does w pods top r) (h' : Does w' pods top r') :
    Does (do w; w') pods top (do return (← r) ++ (← r')) := by
  intro steps
  rw [StateT.run_bind, h steps]
  cases r with
  | error cause => rfl
  | ok more =>
    refine (h' (steps ++ more)).trans ?_
    cases r' with
    | error cause => rfl
    | ok rest =>
      rw [outcome, List.append_assoc]
      rfl

/-- Fields that are gone through one after the other. -/
theorem Does.members {x x' : Except Obstacle (List (Member Shape))}
    {code : List (Member Shape) → List Step}
    (hcode : ∀ ms ms', code (ms ++ ms') = code ms ++ code ms')
    (h : Does w pods top (x.map code)) (h' : Does w' pods top (x'.map code)) :
    Does (do w; w') pods top ((do return (← x) ++ (← x')).map code) := by
  have hall := h.seq h'
  cases x with
  | error cause => exact hall
  | ok ms =>
    cases x' with
    | error cause => exact hall
    | ok ms' =>
      have hboth : Does (do w; w') pods top (.ok (code ms ++ code ms')) := hall
      rw [← hcode] at hboth
      exact hboth

/-- A part whose plan is made from another. -/
theorem Does.made {α β : Type} {x : Except Obstacle α} {make : α → β} {code : α → List Step}
    {whole : β → List Step} (h : Does w pods top (x.map code))
    (hmake : ∀ a, whole (make a) = code a) :
    Does w pods top ((do return make (← x)).map whole) := by
  cases x with
  | error cause => exact h
  | ok a =>
    have ha : Does w pods top (.ok (code a)) := h
    rw [← hmake] at ha
    exact ha

/-- A part with something before and after it. -/
theorem Does.around {α : Type} {x : Except Obstacle α} {code whole : α → List Step}
    {before after : List Step} (h : Does w pods top (x.map code))
    (hwhole : ∀ a, whole a = before ++ code a ++ after) :
    Does (do put before; w; put after) pods top (x.map whole) := by
  have hall := (does_put before).seq (h.seq (does_put after))
  cases x with
  | error cause => exact hall
  | ok a =>
    have ha : Does (do put before; w; put after) pods top
        (.ok (before ++ (code a ++ after))) := hall
    rw [← List.append_assoc, ← hwhole] at ha
    exact ha

section

variable {g : Graph} {limit : Nat} (hlimit : g.nameCount ≤ limit)

include hlimit

/-- A plain record is gone through if its name is not on the stack. -/
theorem does_withinPod {body : List Field → Emission Unit} {f : Field} {owner : List String}
    {outer : String} {code : List (Member Shape) → List Step}
    (hbody : ∀ n, f.link.bind g.node? = some n → n.name ∉ pods →
      Does (body (flatten g n)) (n.name :: pods) top
        ((planMembers g top (n.name :: pods) owner outer (flatten g n)).map code)) :
    Does (withinPod g limit f body) pods top ((podPart g top pods owner outer f).map code) := by
  intro steps
  rw [withinPod, StateT.run_bind, enterPod]
  cases hn : f.link.bind g.node? with
  | none =>
    rw [podPart_of_none g top hn]
    rfl
  | some n =>
    by_cases hw : n.name ∈ pods
    · rw [podPart_of_mem g top hn hw, StateT.run_bind]
      show (StateT.run (if n.name ∈ pods then _ else _) _ >>= _) = _
      rw [if_pos hw]
      rfl
    · obtain ⟨id, -, hid⟩ := Option.bind_eq_some_iff.1 hn
      rw [podPart_of_notMem g top hn hw, StateT.run_bind]
      show (StateT.run (if n.name ∈ pods then _ else _) _ >>= _) = _
      rw [if_neg hw, flattenWithin_eq_ok hid hlimit]
      show (body (flatten g n)).run ⟨steps, n.name :: pods, top⟩ >>= _ = _
      rw [hbody n hn hw steps]
      cases planMembers g top (n.name :: pods) owner outer (flatten g n) <;> rfl

omit hlimit in
/-- Where a plain record may be entered, there is room left for it. -/
theorem exists_room {room : Nat} {f : Field} {n : Node} (hroom : (fresh g pods).length ≤ room)
    (hn : f.link.bind g.node? = some n) (hw : n.name ∉ pods) :
    ∃ left, room = left + 1 ∧ (fresh g (n.name :: pods)).length ≤ left := by
  obtain ⟨id, -, hid⟩ := Option.bind_eq_some_iff.1 hn
  have hlt := fresh_lt hid hw
  exact ⟨room - 1, by omega, by omega⟩

/-- **The walk that writes does what planning and spelling do.** -/
theorem does_write (top : String) :
    (∀ pods owner outer fs, ∀ room object receiver depth, (fresh g pods).length ≤ room →
      Does (writeFields g limit room (object.follow owner) receiver outer depth fs) pods top
        ((planMembers g top pods owner outer fs).map fun ms =>
          Code.stepsAll (writeMembers object receiver depth ms))) ∧
    (∀ pods owner outer f, ∀ room object receiver depth, (fresh g pods).length ≤ room →
      Does (writeField g limit room (object.follow owner) receiver outer depth f) pods top
        ((planMember g top pods owner outer f).map fun ms =>
          Code.stepsAll (writeMembers object receiver depth ms))) ∧
    (∀ pods direct f, ∀ room owner access sink depth, (fresh g pods).length ≤ room →
      Does (writeValue g limit room (if direct then some owner else none) access sink depth f)
        pods top
        ((planShape g top pods direct f).map fun s =>
          Code.stepsAll (writeShape owner access sink depth s))) := by
  refine planInduction g ?nil ?cons ?inline ?member ?scalar ?object ?record ?staticArray
    ?dynamicArray ?stray ?vector ?set ?map ?badKey
  case nil =>
    intro pods owner outer room object receiver depth hroom
    rw [planMembers_nil, writeFields]
    exact does_nothing
  case cons =>
    intro pods owner outer f fs ihf ihfs room object receiver depth hroom
    rw [planMembers_cons, writeFields]
    refine Does.members (fun ms ms' => ?_) (ihf room object receiver depth hroom)
      (ihfs room object receiver depth hroom)
    rw [writeMembers_append, Code.stepsAll_append]
  case inline =>
    intro pods owner outer f hk ih room object receiver depth hroom
    rw [planMember_pod g top hk, writeField, hk]
    refine does_withinPod hlimit fun n hn hw => ?_
    obtain ⟨left, rfl, hleft⟩ := exists_room hroom hn hw
    rw [← follow_concat]
    exact ih n hn hw left object receiver depth hleft
  case member =>
    intro pods owner outer f hk ih room object receiver depth hroom
    rw [planMember_of_ne_pod g top hk, writeField]
    split
    · next hpod => exact absurd hpod hk
    · refine Does.made (ih room _ _ _ _ hroom) fun s => ?_
      rw [writeMembers, writeMembers, List.append_nil]
  case scalar =>
    intro pods direct f s hk room owner access sink depth hroom
    rw [planShape_scalar g top pods direct hk]
    obtain ⟨name, formatted, kind, typeName, acc, link⟩ := f
    subst hk
    rw [writeValue]
    cases s <;> exact does_put _
  case object =>
    intro pods direct f hk room owner access sink depth hroom
    rw [planShape_object g top pods direct hk]
    obtain ⟨name, formatted, kind, typeName, acc, link⟩ := f
    subst hk
    rw [writeValue]
    exact does_put _
  case record =>
    intro pods direct f hk ih room owner access sink depth hroom
    rw [planShape_pod g top pods direct hk]
    obtain ⟨name, formatted, kind, typeName, acc, link⟩ := f
    subst hk
    rw [writeValue]
    refine Does.made (does_withinPod hlimit fun n hn hw => ?_) fun ms => rfl
    obtain ⟨left, rfl, hleft⟩ := exists_room hroom hn hw
    refine Does.around (ih n hn hw left access (.temp ⟨.obj, depth⟩) (depth + 1) hleft)
      fun ms => ?_
    simp [writeShape, Code.stepsAll, Code.steps]
  case staticArray =>
    intro pods direct f e hk ih room owner access sink depth hroom
    rw [planShape_staticArray g top pods direct hk]
    obtain ⟨name, formatted, kind, typeName, acc, link⟩ := f
    subst hk
    rw [writeValue]
    refine Does.made (Does.around (ih room owner _ _ _ hroom) fun s => ?_) fun s => rfl
    simp [writeShape, Code.stepsAll, Code.steps]
  case dynamicArray =>
    intro pods f e v hk ih room owner access sink depth hroom
    rw [planShape_dynamicArray g top pods true hk, if_pos rfl]
    obtain ⟨name, formatted, kind, typeName, acc, link⟩ := f
    subst hk
    rw [writeValue]
    refine Does.made (Does.around (ih room owner _ _ _ hroom) fun s => ?_) fun s => rfl
    simp [writeShape, Code.stepsAll, Code.steps]
  case stray =>
    intro pods f e v hk room owner access sink depth hroom
    rw [planShape_dynamicArray g top pods false hk]
    obtain ⟨name, formatted, kind, typeName, acc, link⟩ := f
    subst hk
    rw [writeValue]
    exact does_obstruct _
  case vector =>
    intro pods direct f e hk ih room owner access sink depth hroom
    rw [planShape_vector g top pods direct hk]
    obtain ⟨name, formatted, kind, typeName, acc, link⟩ := f
    subst hk
    rw [writeValue]
    refine Does.made (Does.around (ih room owner _ _ _ hroom) fun s => ?_) fun s => rfl
    simp [writeShape, Code.stepsAll, Code.steps]
  case set =>
    intro pods direct f sorted e hk ih room owner access sink depth hroom
    rw [planShape_set g top pods direct hk]
    obtain ⟨name, formatted, kind, typeName, acc, link⟩ := f
    subst hk
    rw [writeValue]
    refine Does.made (Does.around (ih room owner _ _ _ hroom) fun s => ?_) fun s => rfl
    simp [writeShape, Code.stepsAll, Code.steps]
  case map =>
    intro pods direct f sorted k v s hk hs ih room owner access sink depth hroom
    rw [planShape_map g top pods direct hk hs]
    obtain ⟨name, formatted, kind, typeName, acc, link⟩ := f
    obtain ⟨keyName, keyFormatted, keyKind, keyTypeName, keyAcc, keyLink⟩ := k
    subst hk hs
    rw [writeValue]
    refine Does.made (Does.around (ih room owner _ _ _ hroom) fun v => ?_) fun v => rfl
    simp [writeShape, Code.stepsAll, Code.steps]
  case badKey =>
    intro pods direct f sorted k v hk hs room owner access sink depth hroom
    rw [planShape_map_of_ne_scalar g top pods direct hk hs]
    obtain ⟨name, formatted, kind, typeName, acc, link⟩ := f
    subst hk
    rw [writeValue]
    simp only
    exact does_obstruct _

/-- **The walk that reads does what planning and spelling do.** -/
theorem does_read (top : String) :
    (∀ pods owner outer fs, ∀ room object source depth, (fresh g pods).length ≤ room →
      Does (readFields g limit room (object.follow owner) source outer depth fs) pods top
        ((planMembers g top pods owner outer fs).map fun ms =>
          Code.stepsAll (readMembers object source depth ms))) ∧
    (∀ pods owner outer f, ∀ room object source depth, (fresh g pods).length ≤ room →
      Does (readField g limit room (object.follow owner) source outer depth f) pods top
        ((planMember g top pods owner outer f).map fun ms =>
          Code.stepsAll (readMembers object source depth ms))) ∧
    (∀ pods direct f, ∀ room owner target value depth, (fresh g pods).length ≤ room →
      Does (readValue g limit room (if direct then some owner else none) target value depth f)
        pods top
        ((planShape g top pods direct f).map fun s =>
          Code.stepsAll (readShape owner target value depth s))) := by
  refine planInduction g ?nil ?cons ?inline ?member ?scalar ?object ?record ?staticArray
    ?dynamicArray ?stray ?vector ?set ?map ?badKey
  case nil =>
    intro pods owner outer room object source depth hroom
    rw [planMembers_nil, readFields]
    exact does_nothing
  case cons =>
    intro pods owner outer f fs ihf ihfs room object source depth hroom
    rw [planMembers_cons, readFields]
    refine Does.members (fun ms ms' => ?_) (ihf room object source depth hroom)
      (ihfs room object source depth hroom)
    rw [readMembers_append, Code.stepsAll_append]
  case inline =>
    intro pods owner outer f hk ih room object source depth hroom
    rw [planMember_pod g top hk, readField, hk]
    refine does_withinPod hlimit fun n hn hw => ?_
    obtain ⟨left, rfl, hleft⟩ := exists_room hroom hn hw
    rw [← follow_concat]
    exact ih n hn hw left object source depth hleft
  case member =>
    intro pods owner outer f hk ih room object source depth hroom
    rw [planMember_of_ne_pod g top hk, readField]
    split
    · next hpod => exact absurd hpod hk
    · refine Does.made (ih room _ _ _ _ hroom) fun s => ?_
      rw [readMembers, readMembers, List.append_nil]
  case scalar =>
    intro pods direct f s hk room owner target value depth hroom
    rw [planShape_scalar g top pods direct hk]
    obtain ⟨name, formatted, kind, typeName, acc, link⟩ := f
    subst hk
    rw [readValue]
    cases s <;> exact does_put _
  case object =>
    intro pods direct f hk room owner target value depth hroom
    rw [planShape_object g top pods direct hk]
    obtain ⟨name, formatted, kind, typeName, acc, link⟩ := f
    subst hk
    rw [readValue]
    exact does_put _
  case record =>
    intro pods direct f hk ih room owner target value depth hroom
    rw [planShape_pod g top pods direct hk]
    obtain ⟨name, formatted, kind, typeName, acc, link⟩ := f
    subst hk
    rw [readValue]
    refine Does.made (does_withinPod hlimit fun n hn hw => ?_) fun ms => rfl
    obtain ⟨left, rfl, hleft⟩ := exists_room hroom hn hw
    refine Does.around (ih n hn hw left target (.temp ⟨.obj, depth⟩) (depth + 1) hleft)
      fun ms => ?_
    simp [readShape, Code.stepsAll, Code.steps]
  case staticArray =>
    intro pods direct f e hk ih room owner target value depth hroom
    rw [planShape_staticArray g top pods direct hk]
    obtain ⟨name, formatted, kind, typeName, acc, link⟩ := f
    subst hk
    rw [readValue]
    refine Does.made (Does.around (ih room owner _ _ _ hroom) fun s => ?_) fun s => rfl
    simp [readShape, Code.stepsAll, Code.steps]
  case dynamicArray =>
    intro pods f e v hk ih room owner target value depth hroom
    rw [planShape_dynamicArray g top pods true hk, if_pos rfl]
    obtain ⟨name, formatted, kind, typeName, acc, link⟩ := f
    subst hk
    rw [readValue]
    refine Does.made (Does.around (ih room owner _ _ _ hroom) fun s => ?_) fun s => rfl
    simp [readShape, Code.stepsAll, Code.steps]
  case stray =>
    intro pods f e v hk room owner target value depth hroom
    rw [planShape_dynamicArray g top pods false hk]
    obtain ⟨name, formatted, kind, typeName, acc, link⟩ := f
    subst hk
    rw [readValue]
    exact does_obstruct _
  case vector =>
    intro pods direct f e hk ih room owner target value depth hroom
    rw [planShape_vector g top pods direct hk]
    obtain ⟨name, formatted, kind, typeName, acc, link⟩ := f
    subst hk
    rw [readValue]
    refine Does.made (Does.around (ih room owner _ _ _ hroom) fun s => ?_) fun s => rfl
    simp [readShape, Code.stepsAll, Code.steps]
  case set =>
    intro pods direct f sorted e hk ih room owner target value depth hroom
    rw [planShape_set g top pods direct hk]
    obtain ⟨name, formatted, kind, typeName, acc, link⟩ := f
    subst hk
    rw [readValue]
    refine Does.made (Does.around (ih room owner _ _ _ hroom) fun s => ?_) fun s => rfl
    simp [readShape, Code.stepsAll, Code.steps]
  case map =>
    intro pods direct f sorted k v s hk hs ih room owner target value depth hroom
    rw [planShape_map g top pods direct hk hs]
    obtain ⟨name, formatted, kind, typeName, acc, link⟩ := f
    obtain ⟨keyName, keyFormatted, keyKind, keyTypeName, keyAcc, keyLink⟩ := k
    subst hk hs
    rw [readValue]
    refine Does.made (Does.around (ih room owner _ _ _ hroom) fun v => ?_) fun v => rfl
    simp [readShape, Code.stepsAll, Code.steps]
  case badKey =>
    intro pods direct f sorted k v hk hs room owner target value depth hroom
    rw [planShape_map_of_ne_scalar g top pods direct hk hs]
    obtain ⟨name, formatted, kind, typeName, acc, link⟩ := f
    subst hk
    rw [readValue]
    simp only
    exact does_obstruct _

/-! ### All fields of a type -/

/-- What a walk over the fields of a type does, whatever the outermost field was before it. -/
def DoesAll (w : Emission Unit) (r : Except Obstacle (List Step)) : Prop :=
  ∀ steps top, ∃ top', w.run ⟨steps, [], top⟩ = outcome steps [] top' r

omit hlimit in
theorem doesAll_put (more : List Step) : DoesAll (put more) (.ok more) := fun _ top => ⟨top, rfl⟩

omit hlimit in
theorem DoesAll.seq (h : DoesAll w r) (h' : DoesAll w' r') :
    DoesAll (do w; w') (do return (← r) ++ (← r')) := by
  intro steps top
  obtain ⟨top₁, hw⟩ := h steps top
  rw [StateT.run_bind, hw]
  cases r with
  | error cause => exact ⟨top, rfl⟩
  | ok more =>
    obtain ⟨top₂, hw'⟩ := h' (steps ++ more) top₁
    refine ⟨top₂, hw'.trans ?_⟩
    cases r' with
    | error cause => rfl
    | ok rest =>
      rw [outcome, List.append_assoc]
      rfl

omit hlimit in
/-- Each field is gone through as the outermost, one after the other. -/
theorem doesAll_eachField {body : Field → Emission Unit} {code : List (Member Shape) → List Step}
    (hnil : code [] = []) (happend : ∀ ms ms', code (ms ++ ms') = code ms ++ code ms')
    (hbody : ∀ f, Does (body f) [] f.serializedName
      ((planMember g f.serializedName [] [] "" f).map code)) (fs : List Field) :
    DoesAll (eachField body fs) ((plan g fs).map code) := by
  induction fs with
  | nil =>
    intro steps top
    refine ⟨top, ?_⟩
    rw [plan_nil, Except.map, outcome, hnil, List.append_nil]
    rfl
  | cons f fs ih =>
    intro steps top
    have hrun : (eachField body (f :: fs)).run ⟨steps, [], top⟩ =
        ((body f).run ⟨steps, [], f.serializedName⟩ >>= fun p => (eachField body fs).run p.2) := rfl
    rw [hrun, hbody f steps, plan_cons]
    cases planMember g f.serializedName [] [] "" f with
    | error cause => exact ⟨top, rfl⟩
    | ok ms =>
      obtain ⟨top', hrest⟩ := ih (steps ++ code ms) f.serializedName
      refine ⟨top', hrest.trans ?_⟩
      cases plan g fs with
      | error cause => rfl
      | ok ms' =>
        show outcome (steps ++ code ms) [] top' (.ok (code ms')) =
          outcome steps [] top' (.ok (code (ms ++ ms')))
        rw [happend, outcome, outcome, List.append_assoc]

/-- The routines are stopped where planning is, and otherwise spell the plan. -/
theorem doesAll_writeAll (object receiver : String) (fs : List Field) :
    DoesAll (writeAll g limit object receiver fs) ((plan g fs).map fun ms =>
      Code.stepsAll (writeMembers (.root object) (.root receiver) 0 ms)) := by
  refine doesAll_eachField rfl (fun ms ms' => ?_) (fun f => ?_) fs
  · rw [writeMembers_append, Code.stepsAll_append]
  · refine (does_write hlimit f.serializedName).2.1 [] [] "" f limit (.root object) (.root receiver)
      0 ?_
    rw [fresh_nil]
    exact hlimit

theorem doesAll_readAll (object source : String) (fs : List Field) :
    DoesAll (readAll g limit object source fs) ((plan g fs).map fun ms =>
      Code.stepsAll (readMembers (.root object) (.root source) 0 ms)) := by
  refine doesAll_eachField rfl (fun ms ms' => ?_) (fun f => ?_) fs
  · rw [readMembers_append, Code.stepsAll_append]
  · refine (does_read hlimit f.serializedName).2.1 [] [] "" f limit (.root object) (.root source)
      0 ?_
    rw [fresh_nil]
    exact hlimit

omit hlimit in
/-- The steps of the routines of a type, with what stands before, between and after the steps for
the members. -/
theorem routineSteps_routines (type : String) (ms : List (Member Shape)) :
    routineSteps (routines type ms) =
      [.line (objectWriter type []).signature, .enter] ++
      (Code.stepsAll (writeMembers (.root "objSource") (.root "jsonReceiver") 0 ms) ++
      ([.leave, .blank, .line (objectReader type []).signature, .enter] ++
      (Code.stepsAll (readMembers (.root "objReceiver") (.root "jsonSource") 0 ms) ++
      ([.leave, .blank, .line (streamWriter type []).signature, .enter,
        .line (Statement.newDocument "jsonRep").spell] ++
      (Code.stepsAll (writeMembers (.root "objSource") (.root "jsonRep") 0 ms) ++
      ([.line (Statement.printDocument "jsonRep" "osReceiver").spell, .leave, .blank,
        .line (streamReader type []).signature, .enter,
        .line (Statement.parseDocument "jsonRep" "isSource").spell] ++
      (Code.stepsAll (readMembers (.root "objReceiver") (.root "jsonRep") 0 ms) ++
        [.leave]))))))) := by
  have hbody : (streamWriter type ms).body = [.line (.newDocument "jsonRep")] ++
      writeMembers (.root "objSource") (.root "jsonRep") 0 ms ++
      [.line (.printDocument "jsonRep" "osReceiver")] := rfl
  have hwriter : Code.stepsAll (streamWriter type ms).body =
      [.line (Statement.newDocument "jsonRep").spell] ++
        Code.stepsAll (writeMembers (.root "objSource") (.root "jsonRep") 0 ms) ++
        [.line (Statement.printDocument "jsonRep" "osReceiver").spell] := by
    rw [hbody, Code.stepsAll_append, Code.stepsAll_append]
    rfl
  simp only [routineSteps, routines, Routine.steps, hwriter, List.map_cons, List.map_nil,
    List.intersperse, List.flatten_cons, List.flatten_nil, List.cons_append, List.append_assoc,
    List.nil_append, List.append_nil]
  rfl

theorem doesAll_emitRoutines (type : String) (fs : List Field) :
    DoesAll (emitRoutines g limit type fs)
      ((plan g fs).map fun ms => routineSteps (routines type ms)) := by
  have hwrite := doesAll_writeAll hlimit "objSource"
  have hread := doesAll_readAll hlimit "objReceiver"
  have hall := (doesAll_put [.line (objectWriter type []).signature, .enter]).seq <|
    (hwrite "jsonReceiver" fs).seq <|
    (doesAll_put [.leave, .blank, .line (objectReader type []).signature, .enter]).seq <|
    (hread "jsonSource" fs).seq <|
    (doesAll_put [.leave, .blank, .line (streamWriter type []).signature, .enter,
      .line (Statement.newDocument "jsonRep").spell]).seq <|
    (hwrite "jsonRep" fs).seq <|
    (doesAll_put [.line (Statement.printDocument "jsonRep" "osReceiver").spell, .leave, .blank,
      .line (streamReader type []).signature, .enter,
      .line (Statement.parseDocument "jsonRep" "isSource").spell]).seq <|
    (hread "jsonRep" fs).seq (doesAll_put [.leave])
  intro steps top
  obtain ⟨top', hrun⟩ := hall steps top
  refine ⟨top', hrun.trans (congrArg (outcome steps [] top') ?_)⟩
  cases plan g fs with
  | error cause => simp only [Except.map, bind, Except.bind]
  | ok ms =>
    simp only [Except.map, bind, Except.bind, pure, Except.pure, routineSteps_routines]

/-- For a node that is no plain record, the routines of its fields are written. -/
theorem run_emitNode {id : NodeId} {n : Node} (hn : g.node? id = some n) (hpod : n.isPod = false) :
    ∃ top, (emitNode g limit n).run ⟨[], [], ""⟩ = outcome [] [] top
      ((plan g (flatten g n)).map fun ms => routineSteps (routines n.name ms)) := by
  obtain ⟨top, hrun⟩ := doesAll_emitRoutines hlimit n.name (flatten g n) [] ""
  refine ⟨top, Eq.trans ?_ hrun⟩
  rw [emitNode, hpod, flattenWithin_eq_ok hn hlimit]
  rfl

end

end Direct

/-- **The text that is written without a plan is that of the plan**, or there is none for the same
reason, if the limit is at least the number of names in the graph. -/
theorem generateWithin_eq {g : Graph} {limit : Nat} {id : NodeId} {n : Node}
    (hn : g.node? id = some n) (hlimit : g.nameCount ≤ limit) :
    generateWithin g limit n = (generate g n).mapError .noCode := by
  unfold generateWithin generate
  cases hpod : n.isPod with
  | true =>
    rw [Direct.emitNode, hpod]
    rfl
  | false =>
    obtain ⟨top, hrun⟩ := Direct.run_emitNode hlimit hn hpod
    rw [hrun]
    cases plan g (flatten g n) with
    | error cause => rfl
    | ok ms => rfl

/-- **No walk is cut short**, whatever cycles the links of a graph make.  Its names are as many
levels as are needed, for bases that are followed one from the other and for plain records that are
entered inside each other; the fields found, and the text written or the reason why there is none,
are then what they are without a limit. -/
theorem walks_end {g : Graph} {id : NodeId} {n : Node} (hn : g.node? id = some n) (limit : Nat)
    (hlimit : g.nameCount ≤ limit) :
    flattenWithin g limit n = .ok (flatten g n) ∧
    generateWithin g limit n = (generate g n).mapError .noCode ∧
    generateWithin g limit n ≠ .error .tooDeep := by
  have hgenerate := generateWithin_eq hn hlimit
  refine ⟨flattenWithin_eq_ok hn hlimit, hgenerate, ?_⟩
  rw [hgenerate]
  cases generate g n with
  | error why =>
    intro h
    cases h
  | ok text =>
    intro h
    cases h

/-- A type that inherits from a type that inherits from it, with a plain record. -/
def ring : Node :=
  ⟨"Ring", .all, [], [⟨"spot", "", .pod, "Spot", .anyone, some 2⟩], [⟨"Band", some 1⟩]⟩

/-- The base of the type, and its heir. -/
def band : Node :=
  ⟨"Band", .all, [], [⟨"width", "", .scalar .int, "int", .anyone, none⟩], [⟨"Ring", some 0⟩]⟩

/-- A plain record that inherits from one that has a list of it. -/
def spot : Node :=
  ⟨"Spot", .pod, [], [⟨"x", "", .scalar .double, "double", .anyone, none⟩], [⟨"Mark", some 3⟩]⟩

/-- A plain record with a list of its heirs. -/
def mark : Node :=
  ⟨"Mark", .pod, [], [⟨"spots", "", .vector ⟨"", "", .pod, "Spot", .anyone, some 2⟩, "", .anyone,
    none⟩], [⟨"Spot", some 2⟩]⟩

/-- A graph with cycles through bases, plain records and containers. -/
def tangle : Graph := ⟨[ring, band, spot, mark]⟩

theorem walks_end_tangle :
    tangle.nameCount = 4 ∧
    (∃ fields, flattenWithin tangle 4 ring = .ok fields ∧
      fields.map (·.name) = ["width", "spot"]) ∧
    generateWithin tangle 4 ring = .error (.noCode (.obstacle (.recursivePod "Spot"))) := by
  have hcount : tangle.nameCount = 4 := by decide
  obtain ⟨hfields, hgenerate, -⟩ :=
    walks_end (show tangle.node? 0 = some ring from rfl) 4 (Nat.le_of_eq hcount)
  have hnames : (flatten tangle ring).map (·.name) = ["width", "spot"] := by cbv
  have hstop : generate tangle ring = .error (.obstacle (.recursivePod "Spot")) := by cbv
  refine ⟨hcount, ⟨_, hfields, hnames⟩, ?_⟩
  rw [hgenerate, hstop]
  rfl

end Emit
end Marshal
