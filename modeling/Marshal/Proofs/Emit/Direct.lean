import Marshal.Emit.Routines
import Marshal.Proofs.Emit.Plans

/-!
# Writing code without a plan

Code can be written while the fields of a type are gone through: what is met is spelled at once,
and the names of the plain records that are being written out are kept on a stack.  There is one
walk that writes and one that reads, and each makes its own checks.  Nothing in them says that
they come to an end, so they get a limit on how many plain records are entered inside each other,
and on how many bases are followed one from the other.

## Main definitions

* `Graph.nameCount` — how many names the nodes of a graph have.
* `flattenWithin` — the fields that are written for a node, down to some number of bases.
* `Direct.Emitter`, `Direct.Emission` — the state of a walk, and what changes it.
* `Direct.writeField`, `Direct.writeValue` — the walk that writes.
* `Direct.readField`, `Direct.readValue` — the walk that reads.
* `generateWithin` — the text of the routines of a node.

## Main results

* `flattenWithin_eq_ok` — following bases ends.
-/

namespace Marshal

/-- How many names the nodes of a graph have. -/
def Schema.Graph.nameCount (g : Schema.Graph) : Nat := ((g.nodes.map (·.name)).eraseDups).length

namespace Emit

open Schema

/-- Why a walk ends early. -/
inductive Stop where
  /-- There is no code. -/
  | noCode (why : NoCode)
  /-- The limit has been reached. -/
  | tooDeep
  deriving DecidableEq, Repr, Inhabited

/-! ### Names that are left -/

theorem fresh_nil (g : Graph) : (fresh g []).length = g.nameCount := by
  unfold fresh Graph.nameCount
  rw [List.filter_eq_self.2 (by simp)]

theorem fresh_singleton_lt {g : Graph} {limit : Nat} {id : NodeId} {n : Node}
    (hn : g.node? id = some n) (hlimit : g.nameCount ≤ limit) :
    (fresh g [n.name]).length < limit := by
  have hlt : (fresh g [n.name]).length < (fresh g []).length := fresh_lt hn List.not_mem_nil
  rw [fresh_nil] at hlt
  omega

/-! ### Inherited fields -/

/-- The fields that a base adds; `above` finds those inherited from its own bases. -/
def baseWithin (g : Graph) (above : List String → List Base → Except Stop (List Field))
    (way : List String) (b : Base) : Except Stop (List Field) :=
  match b.link.bind g.node? with
  | none => .ok []
  | some n =>
      if n.name ∈ way then .ok []
      else do return (← above (n.name :: way) n.bases) ++ n.fields.filter (·.access ≠ .owner)

/-- The fields inherited from bases, where no more than `limit` bases follow one from the
other. -/
def inheritedWithin (g : Graph) : Nat → List String → List Base → Except Stop (List Field)
  | 0, _, _ => .error .tooDeep
  | limit + 1, way, bases => do
      return (← bases.mapM (baseWithin g (inheritedWithin g limit) way)).flatten

/-- The fields that are written for a node. -/
def flattenWithin (g : Graph) (limit : Nat) (n : Node) : Except Stop (List Field) := do
  return (← inheritedWithin g limit [n.name] n.bases) ++ n.fields

theorem baseWithin_eq_ok {g : Graph} {above : List String → List Base → Except Stop (List Field)}
    {way : List String} {b : Base}
    (h : ∀ n, b.link.bind g.node? = some n → n.name ∉ way →
      above (n.name :: way) n.bases = .ok (inherited g (n.name :: way) n.bases)) :
    baseWithin g above way b = .ok (basePart g way b) := by
  cases hn : b.link.bind g.node? with
  | none => simp only [baseWithin, hn, basePart_of_none hn]
  | some n =>
    by_cases hw : n.name ∈ way
    · simp only [baseWithin, hn, if_pos hw, basePart_of_mem hn hw]
    · simp only [baseWithin, hn, if_neg hw, basePart_of_notMem hn hw, h n hn hw]
      rfl

/-- **Following bases ends** while there are more levels left than names that are new. -/
theorem inheritedWithin_eq_ok {g : Graph} {limit : Nat} {way : List String} (bases : List Base)
    (h : (fresh g way).length < limit) :
    inheritedWithin g limit way bases = .ok (inherited g way bases) := by
  induction limit generalizing way bases with
  | zero => omega
  | succ limit ih =>
    have hone : ∀ b, baseWithin g (inheritedWithin g limit) way b = .ok (basePart g way b) := by
      intro b
      refine baseWithin_eq_ok fun n hn hw => ih n.bases ?_
      obtain ⟨id, -, hid⟩ := Option.bind_eq_some_iff.1 hn
      have hlt := fresh_lt hid hw
      omega
    rw [inheritedWithin]
    induction bases with
    | nil =>
      rw [inherited_nil]
      rfl
    | cons b bs ihbs =>
      rw [inherited_cons, List.mapM_cons, hone b]
      cases hbs : bs.mapM (baseWithin g (inheritedWithin g limit) way) with
      | error e => rw [hbs] at ihbs; cases ihbs
      | ok parts =>
        rw [hbs] at ihbs
        have hrest : parts.flatten = inherited g way bs := Except.ok.inj ihbs
        rw [← hrest]
        rfl

/-- The fields of a node of a graph are found without following more bases one from the other than
there are names. -/
theorem flattenWithin_eq_ok {g : Graph} {limit : Nat} {id : NodeId} {n : Node}
    (hn : g.node? id = some n) (hlimit : g.nameCount ≤ limit) :
    flattenWithin g limit n = .ok (flatten g n) := by
  rw [flattenWithin, inheritedWithin_eq_ok n.bases (fresh_singleton_lt hn hlimit)]
  rfl

/-! ### Walks -/

namespace Direct

/-- How far a walk has come. -/
structure Emitter where
  /-- What has been written. -/
  steps : List Step
  /-- The names of the plain records that are being written out, innermost first. -/
  pods : List String
  /-- The serialized name of the outermost field. -/
  current : String
  deriving Repr, Inhabited

/-- A part of a walk. -/
abbrev Emission := StateT Emitter (Except Stop)

/-- Write some steps. -/
def put (steps : List Step) : Emission Unit :=
  modify fun e => { e with steps := e.steps ++ steps }

/-- End with an obstacle, which is told where the walk is. -/
def obstruct {α : Type} (cause : String → Obstacle) : Emission α := do
  throw (.noCode (.obstacle (cause (← get).current)))

section

variable (g : Graph) (limit : Nat)

/-! ### Plain records -/

/-- Put the plain record that a field refers to on the stack; its fields are what comes next. -/
def enterPod (f : Field) : Emission (List Field) := do
  match f.link.bind g.node? with
  | none => obstruct fun top => .unresolvedPod top f.typeName
  | some n =>
      let e ← get
      if n.name ∈ e.pods then obstruct fun _ => .recursivePod n.name
      else
        set { e with pods := n.name :: e.pods }
        flattenWithin g limit n

/-- Go through the plain record that a field refers to, which is on the stack for that long. -/
def withinPod (f : Field) (body : List Field → Emission Unit) : Emission Unit := do
  let fields ← enterPod g limit f
  body fields
  modify fun e => { e with pods := e.pods.tail }

/-! ### Writing -/

mutual

/-- Write fields of `object` to the JSON object `receiver`; `room` says how many plain records may
still be entered inside each other. -/
def writeFields (room : Nat) (object receiver : Place) (outer : String) (depth : Nat) :
    List Field → Emission Unit
  | [] => pure ()
  | f :: fs => do
      writeField room object receiver outer depth f
      writeFields room object receiver outer depth fs
termination_by fs => (room, sizeOf fs, 2)

/-- Write a field of `object` to the JSON object `receiver`. -/
def writeField (room : Nat) (object receiver : Place) (outer : String) (depth : Nat)
    (f : Field) : Emission Unit :=
  let key := dotted outer f.serializedName
  match f.kind with
  | .pod => withinPod g limit f fun fields =>
      match _hr : room with
      | 0 => throw .tooDeep
      | room + 1 => writeFields room (.member object f.name) receiver key depth fields
  | _ => writeValue room (some object) (.member object f.name)
      (.member receiver (.literal key)) depth f
termination_by (room, sizeOf f, 1)

/-- Write a value that is found at `access` to `sink`; `owner` is the record it is a member of. -/
def writeValue (room : Nat) (owner : Option Place) (access : Place) (sink : Sink) (depth : Nat)
    (f : Field) : Emission Unit :=
  match _hk : f.kind with
  | .scalar .int | .scalar .float | .scalar .double =>
      put [.line (Statement.store sink (.number access)).spell]
  | .scalar .bool => put [.line (Statement.store sink (.bool access)).spell]
  | .scalar .string => put [.line (Statement.store sink (.text access)).spell]
  | .object =>
      let obj : Temp := ⟨.obj, depth⟩
      put [.enter, .line (Statement.newObject obj).spell,
        .line (Statement.delegateWrite obj access).spell,
        .line (Statement.store sink (.whole obj)).spell, .leave]
  | .pod => withinPod g limit f fun fields => do
      let obj : Temp := ⟨.obj, depth⟩
      put [.enter, .line (Statement.newObject obj).spell]
      (match _hr : room with
        | 0 => throw .tooDeep
        | room + 1 => writeFields room access (.temp obj) "" (depth + 1) fields)
      put [.line (Statement.store sink (.whole obj)).spell, .leave]
  | .staticArray e => do
      let arr : Temp := ⟨.arr, depth⟩
      let i : Temp := ⟨.i, depth⟩
      put [.enter, .line (Statement.newArray arr).spell,
        .line (LoopHead.count i (.size access)).spell, .enter]
      writeValue room none (.index access i) (.item arr) (depth + 1) e
      put [.leave, .line (Statement.store sink (.whole arr)).spell, .leave]
  | .dynamicArray e lengthVar =>
      match owner with
      | none => obstruct .strayArray
      | some owner => do
          let arr : Temp := ⟨.arr, depth⟩
          let i : Temp := ⟨.i, depth⟩
          put [.enter, .line (Statement.newArray arr).spell,
            .line (LoopHead.count i (.length (.member owner lengthVar))).spell, .enter]
          writeValue room none (.index access i) (.item arr) (depth + 1) e
          put [.leave, .line (Statement.store sink (.whole arr)).spell, .leave]
  | .vector e | .set _ e => do
      let arr : Temp := ⟨.arr, depth⟩
      let item : Temp := ⟨.item, depth⟩
      put [.enter, .line (Statement.newArray arr).spell,
        .line (LoopHead.each item (.place access)).spell, .enter]
      writeValue room none (.temp item) (.item arr) (depth + 1) e
      put [.leave, .line (Statement.store sink (.whole arr)).spell, .leave]
  | .map _ k v =>
      let map : Temp := ⟨.map, depth⟩
      let key : Temp := ⟨.key, depth⟩
      let value : Temp := ⟨.value, depth⟩
      match k.kind with
      | .scalar s => do
          put [.enter, .line (Statement.newObject map).spell,
            .line (LoopHead.pairs key value (.place access)).spell, .enter]
          writeValue room none (.temp value) (.member (.temp map) (.ofTemp s key)) (depth + 1) v
          put [.leave, .line (Statement.store sink (.whole map)).spell, .leave]
      | kind => obstruct fun top => .unsupportedKey top kind.name
termination_by (room, sizeOf f, 0)
decreasing_by
  all_goals first
    | exact Prod.Lex.left _ _ (by omega)
    | (apply Prod.Lex.right
       apply Prod.Lex.left
       refine Nat.lt_of_lt_of_le ?_ (Nat.le_of_lt (sizeOf_kind_lt f))
       rw [_hk]
       simp
       try omega)

end

/-! ### Reading -/

mutual

/-- Read fields of `object` from the JSON object `source`. -/
def readFields (room : Nat) (object source : Place) (outer : String) (depth : Nat) :
    List Field → Emission Unit
  | [] => pure ()
  | f :: fs => do
      readField room object source outer depth f
      readFields room object source outer depth fs
termination_by fs => (room, sizeOf fs, 2)

/-- Read a field of `object` from the JSON object `source`. -/
def readField (room : Nat) (object source : Place) (outer : String) (depth : Nat)
    (f : Field) : Emission Unit :=
  let key := dotted outer f.serializedName
  match f.kind with
  | .pod => withinPod g limit f fun fields =>
      match _hr : room with
      | 0 => throw .tooDeep
      | room + 1 => readFields room (.member object f.name) source key depth fields
  | _ => readValue room (some object) (.member object f.name) (.entry source key) depth f
termination_by (room, sizeOf f, 1)

/-- Read the JSON value found at `value` to `target`; `owner` is the record it is a member of. -/
def readValue (room : Nat) (owner : Option Place) (target value : Place) (depth : Nat)
    (f : Field) : Emission Unit :=
  match _hk : f.kind with
  | .scalar .int | .scalar .float | .scalar .double =>
      put [.line (Statement.readNumber target f.typeName value).spell]
  | .scalar .bool => put [.line (Statement.readBool target value).spell]
  | .scalar .string => put [.line (Statement.readText target value).spell]
  | .object => put [.line (Statement.delegateRead target value).spell]
  | .pod => withinPod g limit f fun fields => do
      let obj : Temp := ⟨.obj, depth⟩
      put [.enter, .line (Statement.viewObject obj value).spell]
      (match _hr : room with
        | 0 => throw .tooDeep
        | room + 1 => readFields room target (.temp obj) "" (depth + 1) fields)
      put [.leave]
  | .staticArray e => do
      let arr : Temp := ⟨.arr, depth⟩
      let i : Temp := ⟨.i, depth⟩
      put [.enter, .line (Statement.viewArray arr value).spell,
        .line (LoopHead.count i (.sizeAndItems target arr)).spell, .enter]
      readValue room none (.index target i) (.item arr i) (depth + 1) e
      put [.leave, .leave]
  | .dynamicArray e lengthVar =>
      match owner with
      | none => obstruct .strayArray
      | some owner => do
          let arr : Temp := ⟨.arr, depth⟩
          let i : Temp := ⟨.i, depth⟩
          put [.enter, .line (Statement.viewArray arr value).spell,
            .line (Statement.release target).spell,
            .line (Statement.setLength (.member owner lengthVar) arr).spell,
            .line (Statement.allocate target arr).spell,
            .line (LoopHead.count i (.items arr)).spell, .enter]
          readValue room none (.index target i) (.item arr i) (depth + 1) e
          put [.leave, .leave]
  | .vector e => do
      let arr : Temp := ⟨.arr, depth⟩
      let item : Temp := ⟨.item, depth⟩
      let elem : Temp := ⟨.elem, depth⟩
      put [.enter, .line (Statement.viewArray arr value).spell,
        .line (Statement.clear target).spell, .line (LoopHead.each item (.items arr)).spell,
        .enter, .line (Statement.appendElement elem target).spell]
      readValue room none (.temp elem) (.temp item) (depth + 1) e
      put [.leave, .leave]
  | .set _ e => do
      let arr : Temp := ⟨.arr, depth⟩
      let item : Temp := ⟨.item, depth⟩
      let elem : Temp := ⟨.elem, depth⟩
      put [.enter, .line (Statement.viewArray arr value).spell,
        .line (Statement.clear target).spell, .line (LoopHead.each item (.items arr)).spell,
        .enter, .line (Statement.newElement elem target).spell]
      readValue room none (.temp elem) (.temp item) (depth + 1) e
      put [.line (Statement.insert target elem).spell, .leave, .leave]
  | .map _ k v =>
      let map : Temp := ⟨.map, depth⟩
      let key : Temp := ⟨.key, depth⟩
      let mapped : Temp := ⟨.value, depth⟩
      let elem : Temp := ⟨.elem, depth⟩
      match k.kind with
      | .scalar s => do
          put [.enter, .line (Statement.viewObject map value).spell,
            .line (Statement.clear target).spell,
            .line (LoopHead.pairs key mapped (.members map)).spell, .enter,
            .line (Statement.newMapped elem target).spell]
          readValue room none (.temp elem) (.temp mapped) (depth + 1) v
          put [.line (Statement.emplace target s key elem).spell, .leave, .leave]
      | kind => obstruct fun top => .unsupportedKey top kind.name
termination_by (room, sizeOf f, 0)
decreasing_by
  all_goals first
    | exact Prod.Lex.left _ _ (by omega)
    | (apply Prod.Lex.right
       apply Prod.Lex.left
       refine Nat.lt_of_lt_of_le ?_ (Nat.le_of_lt (sizeOf_kind_lt f))
       rw [_hk]
       simp
       try omega)

end

/-! ### Routines -/

/-- Go through the fields of a type, each of which is the outermost while it is gone through. -/
def eachField (body : Field → Emission Unit) : List Field → Emission Unit
  | [] => pure ()
  | f :: fs => do
      modify fun e => { e with current := f.serializedName }
      body f
      eachField body fs

/-- Write the fields of a type. -/
def writeAll (object receiver : String) (fields : List Field) : Emission Unit :=
  eachField (writeField g limit limit (.root object) (.root receiver) "" 0) fields

/-- Read the fields of a type. -/
def readAll (object source : String) (fields : List Field) : Emission Unit :=
  eachField (readField g limit limit (.root object) (.root source) "" 0) fields

/-- Write the four routines of a type, where each goes through the fields again. -/
def emitRoutines (type : String) (fields : List Field) : Emission Unit := do
  put [.line (objectWriter type []).signature, .enter]
  writeAll g limit "objSource" "jsonReceiver" fields
  put [.leave, .blank, .line (objectReader type []).signature, .enter]
  readAll g limit "objReceiver" "jsonSource" fields
  put [.leave, .blank, .line (streamWriter type []).signature, .enter,
    .line (Statement.newDocument "jsonRep").spell]
  writeAll g limit "objSource" "jsonRep" fields
  put [.line (Statement.printDocument "jsonRep" "osReceiver").spell, .leave, .blank,
    .line (streamReader type []).signature, .enter,
    .line (Statement.parseDocument "jsonRep" "isSource").spell]
  readAll g limit "objReceiver" "jsonRep" fields
  put [.leave]

/-- Write the routines of a node, if it is no plain record. -/
def emitNode (n : Node) : Emission Unit :=
  if n.isPod then throw (.noCode (.podNode n.name))
  else do emitRoutines g limit n.name (← flattenWithin g limit n)

end

end Direct

/-- The text of the routines of a node. -/
def generateWithin (g : Graph) (limit : Nat) (n : Node) : Except Stop String := do
  let (_, e) ← (Direct.emitNode g limit n).run ⟨[], [], ""⟩
  return Writer.text e.steps

end Emit
end Marshal
