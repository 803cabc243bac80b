import Marshal.Proofs.Emit.Entered
import Marshal.Proofs.Emit.Leaves
import Marshal.Proofs.Emit.Literals
import Mathlib.Data.List.Nodup

/-!
# Keys of one object

The members of plain records are written into the object that the holder is written to, so that
members of many records share one object, each under a dotted key.  If in every record the names of
the fields are different ones, not empty, and without dots, no two members get one key: the members
of one record are under different names, and what is inside a member is under its name.

Every object that is put together in the code is then given each of its keys once.

## Main definitions

* `PlainNames` — fields with names that make good keys.
* `Shape.KeysApart` — a shape whose records have no key twice.
* `Code.keysTo`, `Receives` — the keys under which code adds members to an object.

## Main results

* `plan_spreads` — the members of a plan have keys of their own.
* `receives_nodup` — so no object is given a key twice.
* `generate_keys_apart` — the keys in the routines of a node, and their literals.
-/

namespace Marshal
namespace Emit

open Schema

/-! ### Names -/

/-- Fields with names that are different ones, not empty, and without dots. -/
structure PlainNames (fs : List Field) : Prop where
  apart : (fs.map (·.serializedName)).Nodup
  named : ∀ f ∈ fs, f.serializedName ≠ ""
  undotted : ∀ f ∈ fs, '.' ∉ f.serializedName.toList

/-- The fields of a node have plain names. -/
def PlainAt (g : Graph) (id : NodeId) : Prop :=
  ∀ n, g.node? id = some n → PlainNames (flatten g n)

theorem PlainNames.tail {f : Field} {fs : List Field} (h : PlainNames (f :: fs)) :
    PlainNames fs where
  apart := (List.nodup_cons.1 h.apart).2
  named f' hf' := h.named f' (List.mem_cons_of_mem f hf')
  undotted f' hf' := h.undotted f' (List.mem_cons_of_mem f hf')

/-! ### Keys in a plan -/

mutual

/-- No record in a shape has a key twice. -/
def Shape.KeysApart : Shape → Prop
  | .number _ | .bool | .text | .object => True
  | .record members => (members.map (·.key)).Nodup ∧ ShapesApart members
  | .staticArray e | .dynamicArray _ e | .vector e | .set e | .map _ e => e.KeysApart

/-- No record in the shapes of members has a key twice. -/
def ShapesApart : List (Member Shape) → Prop
  | [] => True
  | ⟨_, _, _, shape⟩ :: ms => shape.KeysApart ∧ ShapesApart ms

end

/-- The members that fields add to an object: no key comes twice, and each is under the name of a
field; and so it is in the records inside of them. -/
structure Spreads (outer : String) (fs : List Field) (ms : List (Member Shape)) : Prop where
  apart : (ms.map (·.key)).Nodup
  under : ∀ m ∈ ms, ∃ f ∈ fs, Under (dotted outer f.serializedName) m.key
  shapes : ShapesApart ms

section

variable {outer : String} {f : Field} {fs : List Field} {ms ms' : List (Member Shape)}

theorem shapesApart_append (h : ShapesApart ms) (h' : ShapesApart ms') :
    ShapesApart (ms ++ ms') := by
  induction ms with
  | nil => exact h'
  | cons m ms ih =>
    rw [ShapesApart] at h
    rw [List.cons_append, ShapesApart]
    exact ⟨h.1, ih h.2⟩

theorem spreads_nil : Spreads outer [] [] where
  apart := List.nodup_nil
  under := by simp
  shapes := by rw [ShapesApart]; trivial

/-- The members of one field are not those of the others. -/
theorem Spreads.cons (hnames : PlainNames (f :: fs)) (h : Spreads outer [f] ms)
    (h' : Spreads outer fs ms') : Spreads outer (f :: fs) (ms ++ ms') where
  apart := by
    rw [List.map_append, List.nodup_append]
    refine ⟨h.apart, h'.apart, ?_⟩
    rintro key hkey key' hkey' rfl
    obtain ⟨m, hm, rfl⟩ := List.mem_map.1 hkey
    obtain ⟨m', hm', hkeys⟩ := List.mem_map.1 hkey'
    obtain ⟨f₁, hf₁, hunder⟩ := h.under m hm
    obtain rfl := List.mem_singleton.1 hf₁
    obtain ⟨f₂, hf₂, hunder'⟩ := h'.under m' hm'
    rw [hkeys] at hunder'
    -- one key is under one name only, but the names of fields are different ones
    have hname : f₁.serializedName = f₂.serializedName :=
      hunder.name_unique (hnames.undotted f₁ List.mem_cons_self)
        (hnames.undotted f₂ (List.mem_cons_of_mem f₁ hf₂)) hunder'
    apply (List.nodup_cons.1 hnames.apart).1
    exact List.mem_map.2 ⟨f₂, hf₂, hname.symm⟩
  under := by
    intro m hm
    rcases List.mem_append.1 hm with hm | hm
    · obtain ⟨f₁, hf₁, hunder⟩ := h.under m hm
      obtain rfl := List.mem_singleton.1 hf₁
      exact ⟨f₁, List.mem_cons_self, hunder⟩
    · obtain ⟨f₂, hf₂, hunder⟩ := h'.under m hm
      exact ⟨f₂, List.mem_cons_of_mem f hf₂, hunder⟩
  shapes := shapesApart_append h.shapes h'.shapes

/-- The members of a plain record are all under the name of the field that holds it. -/
theorem Spreads.inline (hname : f.serializedName ≠ "")
    (h : Spreads (dotted outer f.serializedName) fs ms) : Spreads outer [f] ms where
  apart := h.apart
  under := by
    intro m hm
    obtain ⟨f', -, hunder⟩ := h.under m hm
    exact ⟨f, List.mem_singleton_self f, hunder.inside (dotted_ne_empty hname)⟩
  shapes := h.shapes

theorem spreads_single {owner : List String} {shape : Shape} (h : shape.KeysApart) :
    Spreads outer [f] [⟨owner, f.name, dotted outer f.serializedName, shape⟩] where
  apart := List.nodup_singleton _
  under := by
    intro m hm
    obtain rfl := List.mem_singleton.1 hm
    exact ⟨f, List.mem_singleton_self f, under_self _⟩
  shapes := by
    rw [ShapesApart, ShapesApart]
    exact ⟨h, trivial⟩

end

section

variable {g : Graph}

/-- **The members of a plan have keys of their own**, if the fields of all plain records that are
entered have plain names. -/
theorem planMembers_spread (top : String) :
    (∀ pods owner outer fs, AllEntered g (PlainAt g) (visitsIn top pods fs) → PlainNames fs →
      ∀ ms, planMembers g top pods owner outer fs = .ok ms → Spreads outer fs ms) ∧
    (∀ pods owner outer f, AllEntered g (PlainAt g) [⟨top, pods, true, f⟩] →
      f.serializedName ≠ "" →
      ∀ ms, planMember g top pods owner outer f = .ok ms → Spreads outer [f] ms) ∧
    (∀ pods direct f, AllEntered g (PlainAt g) [⟨top, pods, direct, f⟩] →
      ∀ shape, planShape g top pods direct f = .ok shape → shape.KeysApart) := by
  refine planInduction g ?nil ?cons ?inline ?member ?scalar ?object ?record ?staticArray
    ?dynamicArray ?stray ?vector ?set ?map ?badKey
  case nil =>
    intro pods owner outer _ _ ms hms
    rw [planMembers_nil] at hms
    cases hms
    exact spreads_nil
  case cons =>
    intro pods owner outer f fs ihf ihfs hentered hnames ms hms
    rw [planMembers_cons] at hms
    obtain ⟨ms₁, hf, hms⟩ := bind_eq_ok.1 hms
    obtain ⟨ms₂, hfs, hms⟩ := bind_eq_ok.1 hms
    cases hms
    have hsplit : AllEntered g (PlainAt g) ([⟨top, pods, true, f⟩] ++ visitsIn top pods fs) :=
      hentered
    have hfield := ihf hsplit.left (hnames.named f List.mem_cons_self) ms₁ hf
    have hrest := ihfs (hsplit.right (meets_of_planMember_ok hf)) hnames.tail ms₂ hfs
    exact hfield.cons hnames hrest
  case inline =>
    intro pods owner outer f hk ih hentered hname ms hms
    rw [planMember_pod g top hk] at hms
    obtain ⟨n, hn, hw, hms⟩ := (podPart_eq_ok g top).1 hms
    obtain ⟨⟨id, -, hnode, hplain⟩, hfields⟩ := hentered.record hk hn hw
    exact (ih n hn hw hfields (hplain n hnode) ms hms).inline hname
  case member =>
    intro pods owner outer f hk ih hentered _ ms hms
    rw [planMember_of_ne_pod g top hk] at hms
    obtain ⟨shape, hshape, hms⟩ := bind_eq_ok.1 hms
    cases hms
    exact spreads_single (ih hentered shape hshape)
  case scalar =>
    intro pods direct f s hk _ shape hshape
    rw [planShape_scalar g top pods direct hk] at hshape
    cases hshape
    cases s <;> trivial
  case object =>
    intro pods direct f hk _ shape hshape
    rw [planShape_object g top pods direct hk] at hshape
    cases hshape
    trivial
  case record =>
    intro pods direct f hk ih hentered shape hshape
    rw [planShape_pod g top pods direct hk] at hshape
    obtain ⟨ms, hms, hshape⟩ := bind_eq_ok.1 hshape
    cases hshape
    obtain ⟨n, hn, hw, hms⟩ := (podPart_eq_ok g top).1 hms
    obtain ⟨⟨id, -, hnode, hplain⟩, hfields⟩ := hentered.record hk hn hw
    have hspread := ih n hn hw hfields (hplain n hnode) ms hms
    exact ⟨hspread.apart, hspread.shapes⟩
  case staticArray =>
    intro pods direct f e hk ih hentered shape hshape
    rw [planShape_staticArray g top pods direct hk] at hshape
    obtain ⟨shape', he, hshape⟩ := bind_eq_ok.1 hshape
    cases hshape
    exact ih (hentered.element (by simp only [Visit.obstacle?, hk])
      (by simp only [Visit.inner, hk])) shape' he
  case dynamicArray =>
    intro pods f e v hk ih hentered shape hshape
    rw [planShape_dynamicArray g top pods true hk, if_pos rfl] at hshape
    obtain ⟨shape', he, hshape⟩ := bind_eq_ok.1 hshape
    cases hshape
    exact ih (hentered.element (by simp only [Visit.obstacle?, hk, if_true])
      (by simp only [Visit.inner, hk])) shape' he
  case stray =>
    intro pods f e v hk _ shape hshape
    rw [planShape_dynamicArray g top pods false hk] at hshape
    cases hshape
  case vector =>
    intro pods direct f e hk ih hentered shape hshape
    rw [planShape_vector g top pods direct hk] at hshape
    obtain ⟨shape', he, hshape⟩ := bind_eq_ok.1 hshape
    cases hshape
    exact ih (hentered.element (by simp only [Visit.obstacle?, hk])
      (by simp only [Visit.inner, hk])) shape' he
  case set =>
    intro pods direct f sorted e hk ih hentered shape hshape
    rw [planShape_set g top pods direct hk] at hshape
    obtain ⟨shape', he, hshape⟩ := bind_eq_ok.1 hshape
    cases hshape
    exact ih (hentered.element (by simp only [Visit.obstacle?, hk])
      (by simp only [Visit.inner, hk])) shape' he
  case map =>
    intro pods direct f sorted k v s hk hs ih hentered shape hshape
    rw [planShape_map g top pods direct hk hs] at hshape
    obtain ⟨shape', hv, hshape⟩ := bind_eq_ok.1 hshape
    cases hshape
    exact ih (hentered.element (by simp only [Visit.obstacle?, hk, hs, Kind.isScalar, if_true])
      (by simp only [Visit.inner, hk])) shape' hv
  case badKey =>
    intro pods direct f sorted k v hk hs _ shape hshape
    rw [planShape_map_of_ne_scalar g top pods direct hk hs] at hshape
    cases hshape

theorem plan_spreads {fs : List Field} {ms : List (Member Shape)} (h : plan g fs = .ok ms)
    (hnames : PlainNames fs) (hentered : AllEntered g (PlainAt g) (visits fs)) :
    Spreads "" fs ms := by
  induction fs generalizing ms with
  | nil =>
    cases h
    exact spreads_nil
  | cons f fs ih =>
    rw [plan_cons] at h
    obtain ⟨ms₁, hf, h⟩ := bind_eq_ok.1 h
    obtain ⟨ms₂, hfs, h⟩ := bind_eq_ok.1 h
    cases h
    have hsplit : AllEntered g (PlainAt g) ([⟨f.serializedName, [], true, f⟩] ++ visits fs) :=
      hentered
    have hfield := (planMembers_spread f.serializedName).2.1 [] [] "" f hsplit.left
      (hnames.named f List.mem_cons_self) ms₁ hf
    exact hfield.cons hnames
      (ih hfs hnames.tail (hsplit.right (meets_of_planMember_ok hf)))

end

/-! ### Keys in the code -/

/-- The key under which what is written to a sink becomes a member of an object. -/
def Sink.keysTo (object : Place) : Sink → List String
  | .member o (.literal key) => if o = object then [key] else []
  | .member _ (.ofTemp _ _) | .item _ => []

/-- The key under which a statement adds a member of a record to an object. -/
def Statement.keysTo (object : Place) : Statement → List String
  | .store sink _ => sink.keysTo object
  | _ => []

namespace Code

mutual

/-- The keys under which a piece of code adds members of records to an object.  A loop may run more
than once, so what it adds counts twice. -/
def keysTo (object : Place) : Code → List String
  | .line s => s.keysTo object
  | .block body => keysToAll object body
  | .loop _ body => keysToAll object body ++ keysToAll object body

/-- The keys under which pieces of code add members of records to an object. -/
def keysToAll (object : Place) : List Code → List String
  | [] => []
  | c :: cs => keysTo object c ++ keysToAll object cs

end

mutual

/-- The bodies of the blocks and loops in a piece of code. -/
def bodies : Code → List (List Code)
  | .line _ => []
  | .block body | .loop _ body => body :: bodiesAll body

/-- The bodies of the blocks and loops in pieces of code. -/
def bodiesAll : List Code → List (List Code)
  | [] => []
  | c :: cs => bodies c ++ bodiesAll cs

end

section

variable {object : Place} {cs cs' : List Code}

theorem keysToAll_append :
    keysToAll object (cs ++ cs') = keysToAll object cs ++ keysToAll object cs' := by
  induction cs with
  | nil => rw [keysToAll, List.nil_append, List.nil_append]
  | cons c cs ih => rw [List.cons_append, keysToAll, keysToAll, ih, List.append_assoc]

theorem keysToAll_block : keysToAll object [.block cs] = keysToAll object cs := by
  rw [keysToAll, keysTo, keysToAll, List.append_nil]

theorem bodiesAll_append : bodiesAll (cs ++ cs') = bodiesAll cs ++ bodiesAll cs' := by
  induction cs with
  | nil => rw [bodiesAll, List.nil_append, List.nil_append]
  | cons c cs ih => rw [List.cons_append, bodiesAll, bodiesAll, ih, List.append_assoc]

end

end Code

open Code

/-- An object that code puts together, with the keys of the members of records that are added to
it: one that the code is given, or one that is declared in a block, for the rest of that block. -/
inductive Receives (cs : List Code) : Place → List String → Prop where
  | root (name : String) : Receives cs (.root name) (keysToAll (.root name) cs)
  | temp {t : Temp} {body : List Code} (hbody : body ∈ bodiesAll cs)
      (ht : Code.line (.newObject t) ∈ body) : Receives cs (.temp t) (keysToAll (.temp t) body)

/-! ### Where keys go -/

/-- Where a list or a map is filled in a loop that adds nothing around it, it only adds itself. -/
theorem keysToAll_filled {object : Place} {new : Statement} {head : LoopHead} {inner : List Code}
    {sink : Sink} {value : Made} (hnew : new.keysTo object = [])
    (hinner : keysToAll object inner = []) :
    keysToAll object [.line new, .loop head inner, .line (.store sink value)] =
      sink.keysTo object := by
  have hstore : (Statement.store sink value).keysTo object = sink.keysTo object := rfl
  simp [keysToAll, keysTo, hnew, hinner, hstore]

mutual

/-- To an object that is around it, a value adds only itself. -/
theorem keysToAll_writeShape {object : Place} {d : Nat} (hobject : object.Below d)
    (owner access : Place) (sink : Sink) (shape : Shape) :
    keysToAll object (writeShape owner access sink d shape) = sink.keysTo object := by
  have hinner : object.Below (d + 1) := hobject.mono (Nat.le_succ d)
  match shape with
  | .number typeName => exact List.append_nil _
  | .bool => exact List.append_nil _
  | .text => exact List.append_nil _
  | .object => simp [writeShape, keysToAll, keysTo, Statement.keysTo]
  | .record members =>
    have hmembers := keysToAll_writeMembers hinner access (.temp ⟨.obj, d⟩) members
    rw [if_neg (hobject.ne_temp (Nat.le_refl d)).symm] at hmembers
    simp [writeShape, keysToAll, keysToAll_append, keysTo, Statement.keysTo, hmembers]
  | .staticArray e =>
    rw [writeShape, keysToAll_block]
    exact keysToAll_filled rfl (keysToAll_writeShape hinner owner (.index access ⟨.i, d⟩)
      (.item ⟨.arr, d⟩) e)
  | .dynamicArray lengthVar e =>
    rw [writeShape, keysToAll_block]
    exact keysToAll_filled rfl (keysToAll_writeShape hinner owner (.index access ⟨.i, d⟩)
      (.item ⟨.arr, d⟩) e)
  | .vector e | .set e =>
    rw [writeShape, keysToAll_block]
    exact keysToAll_filled rfl (keysToAll_writeShape hinner owner (.temp ⟨.item, d⟩)
      (.item ⟨.arr, d⟩) e)
  | .map s v =>
    rw [writeShape, keysToAll_block]
    exact keysToAll_filled rfl (keysToAll_writeShape hinner owner (.temp ⟨.value, d⟩)
      (.member (.temp ⟨.map, d⟩) (.ofTemp s ⟨.key, d⟩)) v)

/-- Members are added to their receiver, each under its key, and to no other object around them. -/
theorem keysToAll_writeMembers {object : Place} {d : Nat} (hobject : object.Below d)
    (record receiver : Place) (ms : List (Member Shape)) :
    keysToAll object (writeMembers record receiver d ms) =
      if receiver = object then ms.map (·.key) else [] := by
  match ms with
  | [] => rw [writeMembers, keysToAll, List.map_nil, ite_self]
  | ⟨owner, name, key, shape⟩ :: ms =>
    rw [writeMembers, keysToAll_append, keysToAll_writeShape hobject,
      keysToAll_writeMembers hobject record receiver ms, Sink.keysTo]
    split <;> rfl

end

mutual

/-- Reading adds nothing to any object. -/
theorem keysToAll_readShape (object owner target value : Place) (d : Nat) (shape : Shape) :
    keysToAll object (readShape owner target value d shape) = [] := by
  match shape with
  | .number typeName => rfl
  | .bool => rfl
  | .text => rfl
  | .object => rfl
  | .record members =>
    have hmembers := keysToAll_readMembers object target (.temp ⟨.obj, d⟩) (d + 1) members
    simp [readShape, keysToAll, keysTo, Statement.keysTo, hmembers]
  | .staticArray e =>
    have he := keysToAll_readShape object owner (.index target ⟨.i, d⟩)
      (.item ⟨.arr, d⟩ ⟨.i, d⟩) (d + 1) e
    simp [readShape, keysToAll, keysTo, Statement.keysTo, he]
  | .dynamicArray lengthVar e =>
    have he := keysToAll_readShape object owner (.index target ⟨.i, d⟩)
      (.item ⟨.arr, d⟩ ⟨.i, d⟩) (d + 1) e
    simp [readShape, keysToAll, keysTo, Statement.keysTo, he]
  | .vector e | .set e =>
    have he := keysToAll_readShape object owner (.temp ⟨.elem, d⟩) (.temp ⟨.item, d⟩) (d + 1) e
    simp [readShape, keysToAll, keysToAll_append, keysTo, Statement.keysTo, he]
  | .map s v =>
    have hv := keysToAll_readShape object owner (.temp ⟨.elem, d⟩) (.temp ⟨.value, d⟩) (d + 1) v
    simp [readShape, keysToAll, keysToAll_append, keysTo, Statement.keysTo, hv]

theorem keysToAll_readMembers (object record source : Place) (d : Nat)
    (ms : List (Member Shape)) :
    keysToAll object (readMembers record source d ms) = [] := by
  match ms with
  | [] => rw [readMembers, keysToAll]
  | ⟨owner, name, key, shape⟩ :: ms =>
    rw [readMembers, keysToAll_append, keysToAll_readShape, keysToAll_readMembers,
      List.append_nil]

end

/-! ### Objects that are declared -/

/-- Every object that is declared in a block is given each key once in the rest of it. -/
def DeclaredApart (cs : List Code) : Prop :=
  ∀ body ∈ bodiesAll cs, ∀ t, Code.line (.newObject t) ∈ body →
    (keysToAll (.temp t) body).Nodup

section

variable {cs cs' : List Code} {d : Nat} {sink : Sink}

theorem declaredApart_append (h : DeclaredApart cs) (h' : DeclaredApart cs') :
    DeclaredApart (cs ++ cs') := by
  intro body hbody
  rw [bodiesAll_append] at hbody
  rcases List.mem_append.1 hbody with hbody | hbody
  · exact h body hbody
  · exact h' body hbody

theorem declaredApart_line (s : Statement) : DeclaredApart [.line s] := by
  intro body hbody
  simp [bodiesAll, bodies] at hbody

theorem declaredApart_block (hown : ∀ t, Code.line (.newObject t) ∈ cs →
    (keysToAll (.temp t) cs).Nodup) (h : DeclaredApart cs) : DeclaredApart [.block cs] := by
  intro body hbody
  rw [bodiesAll, bodies, bodiesAll, List.append_nil] at hbody
  rcases List.mem_cons.1 hbody with rfl | hbody
  · exact hown
  · exact h body hbody

/-- A sink that speaks of nothing as deep as an object adds nothing to it. -/
theorem Sink.Below.keysTo (h : sink.Below d) {t : Temp} (ht : d ≤ t.depth) :
    sink.keysTo (.temp t) = [] := by
  cases sink with
  | item arr => rfl
  | member object key =>
    cases key with
    | ofTemp s u => rfl
    | literal key =>
      have hobject : object.Below d := h
      exact if_neg (hobject.ne_temp ht)

theorem newObject_notMem_writeShape (t : Temp) (owner access : Place) (sink : Sink) (d : Nat)
    (shape : Shape) : Code.line (.newObject t) ∉ writeShape owner access sink d shape := by
  cases shape <;> simp [writeShape]

theorem newObject_notMem_writeMembers (t : Temp) (record receiver : Place) (d : Nat)
    (ms : List (Member Shape)) :
    Code.line (.newObject t) ∉ writeMembers record receiver d ms := by
  induction ms with
  | nil => simp [writeMembers]
  | cons m ms ih =>
    rw [writeMembers, List.mem_append]
    rintro (h | h)
    · exact newObject_notMem_writeShape t _ _ _ d _ h
    · exact ih h

/-- A list or a map that is filled in a loop gets no key of a member of a record. -/
theorem declaredApart_filled {new : Statement} {head : LoopHead} {owner access : Place}
    {sink' : Sink} {value : Made} {shape : Shape} (hsink : sink.Below d)
    (hnew : ∀ t, new = .newObject t → d ≤ t.depth ∧
      keysToAll (.temp t) (writeShape owner access sink' (d + 1) shape) = [])
    (hinner : DeclaredApart (writeShape owner access sink' (d + 1) shape)) :
    DeclaredApart [.block [.line new, .loop head (writeShape owner access sink' (d + 1) shape),
      .line (.store sink value)]] := by
  apply declaredApart_block
  · intro t ht
    obtain rfl : new = .newObject t := by simpa [eq_comm] using ht
    obtain ⟨hdepth, hempty⟩ := hnew t rfl
    rw [keysToAll_filled rfl hempty, hsink.keysTo hdepth]
    exact List.nodup_nil
  · intro body hbody
    simp only [bodiesAll, bodies, List.nil_append, List.append_nil] at hbody
    rcases List.mem_cons.1 hbody with rfl | hbody
    · intro t ht
      exact absurd ht (newObject_notMem_writeShape t owner access sink' (d + 1) shape)
    · exact hinner body hbody

end

mutual

/-- The objects that are declared where a value is written get each key once. -/
theorem declaredApart_writeShape {d : Nat} {sink : Sink} (hsink : sink.Below d)
    (owner access : Place) (shape : Shape) (hshape : shape.KeysApart) :
    DeclaredApart (writeShape owner access sink d shape) := by
  have hitem : Sink.Below (d + 1) (.item ⟨.arr, d⟩) := Nat.lt_succ_self d
  match shape with
  | .number typeName => exact declaredApart_line _
  | .bool => exact declaredApart_line _
  | .text => exact declaredApart_line _
  | .object =>
    apply declaredApart_block
    · intro t ht
      obtain rfl : t = ⟨.obj, d⟩ := by simpa using ht
      have hstore : sink.keysTo (.temp ⟨.obj, d⟩) = [] := hsink.keysTo (Nat.le_refl d)
      simp [keysToAll, keysTo, Statement.keysTo, hstore]
    · intro body hbody
      simp [bodiesAll, bodies] at hbody
  | .record members =>
    have hobj : Place.Below (d + 1) (.temp ⟨.obj, d⟩) := Nat.lt_succ_self d
    have hkeys := keysToAll_writeMembers hobj access (.temp ⟨.obj, d⟩) members
    rw [if_pos rfl] at hkeys
    have hstore : sink.keysTo (.temp ⟨.obj, d⟩) = [] := hsink.keysTo (Nat.le_refl d)
    apply declaredApart_block
    · intro t ht
      rcases List.mem_append.1 ht with ht | ht
      · rcases List.mem_cons.1 ht with ht | ht
        · cases ht
          rw [keysToAll_append, keysToAll, hkeys]
          simpa [keysToAll, keysTo, Statement.keysTo, hstore] using hshape.1
        · exact absurd ht (newObject_notMem_writeMembers t _ _ _ members)
      · cases List.mem_singleton.1 ht
    · have hmembers := declaredApart_writeMembers hobj access members hshape.2
      exact declaredApart_append (declaredApart_append (declaredApart_line _) hmembers)
        (declaredApart_line _)
  | .staticArray e =>
    exact declaredApart_filled hsink (by simp) (declaredApart_writeShape hitem owner _ e hshape)
  | .dynamicArray lengthVar e =>
    exact declaredApart_filled hsink (by simp) (declaredApart_writeShape hitem owner _ e hshape)
  | .vector e | .set e =>
    exact declaredApart_filled hsink (by simp) (declaredApart_writeShape hitem owner _ e hshape)
  | .map s v =>
    have hmap : Place.Below (d + 1) (.temp ⟨.map, d⟩) := Nat.lt_succ_self d
    have hentry : Sink.Below (d + 1) (.member (.temp ⟨.map, d⟩) (.ofTemp s ⟨.key, d⟩)) :=
      ⟨hmap, Nat.lt_succ_self d⟩
    refine declaredApart_filled hsink ?_ (declaredApart_writeShape hentry owner _ v hshape)
    intro t ht
    cases ht
    exact ⟨Nat.le_refl d, keysToAll_writeShape hmap owner _ _ v⟩

theorem declaredApart_writeMembers {d : Nat} {receiver : Place} (hreceiver : receiver.Below d)
    (record : Place) (ms : List (Member Shape)) (hms : ShapesApart ms) :
    DeclaredApart (writeMembers record receiver d ms) := by
  match ms with
  | [] =>
    intro body hbody
    rw [writeMembers, bodiesAll] at hbody
    cases hbody
  | ⟨owner, name, key, shape⟩ :: ms =>
    rw [ShapesApart] at hms
    rw [writeMembers]
    have hsink : Sink.Below d (.member receiver (.literal key)) := hreceiver
    exact declaredApart_append (declaredApart_writeShape hsink _ _ shape hms.1)
      (declaredApart_writeMembers hreceiver record ms hms.2)

end

mutual

/-- Where nothing is added to an object, nothing is in a block of it either. -/
theorem keysToAll_of_mem_bodies {object : Place} {body : List Code} (c : Code)
    (hc : keysTo object c = []) (hbody : body ∈ bodies c) : keysToAll object body = [] := by
  match c with
  | .line s =>
    rw [bodies] at hbody
    cases hbody
  | .block cs =>
    rw [keysTo] at hc
    rw [bodies] at hbody
    rcases List.mem_cons.1 hbody with rfl | hbody
    · exact hc
    · exact keysToAll_of_mem_bodiesAll cs hc hbody
  | .loop head cs =>
    rw [keysTo] at hc
    rw [bodies] at hbody
    have hcs := (List.append_eq_nil_iff.1 hc).1
    rcases List.mem_cons.1 hbody with rfl | hbody
    · exact hcs
    · exact keysToAll_of_mem_bodiesAll cs hcs hbody

theorem keysToAll_of_mem_bodiesAll {object : Place} {body : List Code} (cs : List Code)
    (hcs : keysToAll object cs = []) (hbody : body ∈ bodiesAll cs) :
    keysToAll object body = [] := by
  match cs with
  | [] =>
    rw [bodiesAll] at hbody
    cases hbody
  | c :: cs =>
    rw [keysToAll] at hcs
    rw [bodiesAll] at hbody
    obtain ⟨hc, hcs⟩ := List.append_eq_nil_iff.1 hcs
    rcases List.mem_append.1 hbody with hbody | hbody
    · exact keysToAll_of_mem_bodies c hc hbody
    · exact keysToAll_of_mem_bodiesAll cs hcs hbody

end

/-! ### Routines -/

/-- Code that gives each of its objects no key twice. -/
theorem receives_nodup {cs : List Code} (hroot : ∀ name, (keysToAll (.root name) cs).Nodup)
    (hdeclared : DeclaredApart cs) {object : Place} {keys : List String}
    (h : Receives cs object keys) : keys.Nodup := by
  cases h with
  | root name => exact hroot name
  | temp hbody ht => exact hdeclared _ hbody _ ht

/-- Code that adds nothing gives no object a key twice. -/
theorem receives_nodup_of_reading {cs : List Code} (hcs : ∀ object, keysToAll object cs = [])
    {object : Place} {keys : List String} (h : Receives cs object keys) : keys.Nodup := by
  refine receives_nodup ?_ ?_ h
  · intro name
    rw [hcs]
    exact List.nodup_nil
  · intro body hbody t _
    rw [keysToAll_of_mem_bodiesAll cs (hcs _) hbody]
    exact List.nodup_nil

/-- The keys of the leaves are those of the members. -/
theorem keys_of_forms {g : Graph} {s : Spot} {ls : List Leaf} {ms : List (Member Shape)}
    (h : Forms g s ls (memberParts s ms)) : ls.map (·.key) = ms.map (·.key) := by
  induction ms generalizing ls with
  | nil =>
    rw [memberParts] at h
    cases h
    rfl
  | cons m ms ih =>
    obtain ⟨owner, name, key, shape⟩ := m
    rw [memberParts] at h
    cases h with
    | cons hleaf hls => rw [List.map_cons, List.map_cons, ih hls]

/-- To an object that it is given, a routine adds the members under their keys, or nothing. -/
theorem keysToAll_routine (ms : List (Member Shape)) (object receiver name : String) :
    keysToAll (.root name) (writeMembers (.root object) (.root receiver) 0 ms) =
      if receiver = name then ms.map (·.key) else [] := by
  have hroot : Place.Below 0 (.root name) := trivial
  rw [keysToAll_writeMembers hroot]
  simp

/-- A document gets nothing but the members. -/
theorem keysToAll_document (ms : List (Member Shape)) (object receiver stream : String)
    (place : Place) :
    keysToAll place (.line (.newDocument receiver) ::
      writeMembers (.root object) (.root receiver) 0 ms ++
      [.line (.printDocument receiver stream)]) =
    keysToAll place (writeMembers (.root object) (.root receiver) 0 ms) := by
  rw [keysToAll_append, keysToAll]
  simp [keysToAll, keysTo, Statement.keysTo]

/-- A routine gives each of its objects no key twice, if none comes twice in the plan. -/
theorem routine_nodup {type : String} {ms : List (Member Shape)}
    (hkeys : (ms.map (·.key)).Nodup) (hshapes : ShapesApart ms) {r : Routine}
    (hr : r ∈ routines type ms) {object : Place} {keys : List String}
    (h : Receives r.body object keys) : keys.Nodup := by
  have hdeclared : ∀ source receiver : String,
      DeclaredApart (writeMembers (.root source) (.root receiver) 0 ms) := by
    intro source receiver
    have hreceiver : Place.Below 0 (.root receiver) := trivial
    exact declaredApart_writeMembers hreceiver (.root source) ms hshapes
  have hroot : ∀ source receiver name : String,
      (keysToAll (.root name) (writeMembers (.root source) (.root receiver) 0 ms)).Nodup := by
    intro source receiver name
    rw [keysToAll_routine]
    split
    · exact hkeys
    · exact List.nodup_nil
  obtain hbody | hbody | hbody | hbody := body_of_mem_routines hr <;> rw [hbody] at h
  · exact receives_nodup (hroot _ _) (hdeclared _ _) h
  · refine receives_nodup_of_reading ?_ h
    intro place
    exact keysToAll_readMembers place _ _ 0 ms
  · refine receives_nodup ?_ ?_ h
    · intro name
      rw [keysToAll_document]
      exact hroot _ _ name
    · exact declaredApart_append (declaredApart_append (declaredApart_line _) (hdeclared _ _))
        (declaredApart_line _)
  · refine receives_nodup_of_reading ?_ h
    intro place
    rw [keysToAll, keysToAll_readMembers]
    rfl

/-- **No key comes twice in an object.**  If the fields of a node, and those of every plain record
that is entered, have plain names, then each object that a routine of the node puts together is
given members of records under different keys, and the literals of these are different ones too.
What the routine is given gets the dotted keys of all leaves. -/
theorem generate_keys_apart {g : Graph} {n : Node} {text : String}
    (h : generate g n = .ok text) (hnames : PlainNames (flatten g n))
    (hentered : ∀ id, Enters g (visits (flatten g n)) id → PlainAt g id) :
    ∃ ms leaves, plan g (flatten g n) = .ok ms ∧ text = routinesText n.name ms ∧
      Expands g [] "" (flatten g n) leaves ∧
      Receives (objectWriter n.name ms).body (.root "jsonReceiver") (leaves.map (·.key)) ∧
      Receives (streamWriter n.name ms).body (.root "jsonRep") (leaves.map (·.key)) ∧
      ∀ r ∈ routines n.name ms, ∀ object keys, Receives r.body object keys →
        keys.Nodup ∧ (keys.map literal).Nodup := by
  obtain ⟨-, ms, hplan, rfl⟩ := generate_eq_ok.1 h
  obtain ⟨leaves, hleaves, hforms⟩ := plan_lays g hplan
  have hspreads := plan_spreads hplan hnames hentered
  have hwritten := keysToAll_routine ms "objSource" "jsonReceiver" "jsonReceiver"
  have hprinted := keysToAll_document ms "objSource" "jsonRep" "osReceiver"
    (.root "jsonRep")
  rw [if_pos rfl] at hwritten
  rw [keysToAll_routine, if_pos rfl] at hprinted
  refine ⟨ms, leaves, hplan, rfl, hleaves, ?_, ?_, ?_⟩
  · rw [keys_of_forms (hforms .self), ← hwritten]
    exact .root "jsonReceiver"
  · rw [keys_of_forms (hforms .self), ← hprinted]
    exact .root "jsonRep"
  · intro r hr object keys hreceives
    have hnodup := routine_nodup hspreads.apart hspreads.shapes hr hreceives
    exact ⟨hnodup, hnodup.map fun key key' h => literal_injective h⟩

/-- A plain record. -/
private def pixel : Node :=
  ⟨"Pixel", .pod, [], [Field.named "x" (.scalar .double), Field.named "y" (.scalar .double)], []⟩

/-- A plain record inside which is another one. -/
private def region : Node :=
  ⟨"Region", .pod, [], [{ Field.named "corner" .pod with link := some 0 },
    Field.named "width" (.scalar .double)], []⟩

/-- A type with plain records as members, and with a list of plain records. -/
private def sheet : Node :=
  ⟨"Sheet", .all, ["JSON"], [Field.named "x" (.scalar .string),
    { Field.named "frame" .pod with link := some 1 },
    Field.named "spots" (.vector { Field.element .pod "Pixel" with link := some 0 })], []⟩

/-- The members of the type. -/
private def sheetMembers : List (Member Shape) :=
  [⟨[], "x", "x", .text⟩, ⟨["frame", "corner"], "x", "frame.corner.x", .number ""⟩,
    ⟨["frame", "corner"], "y", "frame.corner.y", .number ""⟩,
    ⟨["frame"], "width", "frame.width", .number ""⟩,
    ⟨[], "spots", "spots", .vector (.record [⟨[], "x", "x", .number ""⟩,
      ⟨[], "y", "y", .number ""⟩])⟩]

/-- Members of many records are named alike, but in every object their keys differ. -/
theorem generate_keys_apart_sheet :
    generate ⟨[pixel, region, sheet]⟩ sheet = .ok (routinesText "Sheet" sheetMembers) ∧
    Receives (objectWriter "Sheet" sheetMembers).body (.root "jsonReceiver")
      ["x", "frame.corner.x", "frame.corner.y", "frame.width", "spots"] ∧
    Receives (objectWriter "Sheet" sheetMembers).body (.temp ⟨.obj, 1⟩) ["x", "y"] ∧
    ∀ r ∈ routines "Sheet" sheetMembers, ∀ object keys, Receives r.body object keys →
      keys.Nodup ∧ (keys.map literal).Nodup := by
  have hpixel : flatten ⟨[pixel, region, sheet]⟩ pixel = pixel.fields := by cbv
  have hregion : flatten ⟨[pixel, region, sheet]⟩ region = region.fields := by cbv
  have hsheet : flatten ⟨[pixel, region, sheet]⟩ sheet = sheet.fields := by cbv
  have hplan : plan ⟨[pixel, region, sheet]⟩ (flatten ⟨[pixel, region, sheet]⟩ sheet) =
      .ok sheetMembers := by cbv
  have hgenerate : generate ⟨[pixel, region, sheet]⟩ sheet =
      .ok (routinesText "Sheet" sheetMembers) :=
    generate_eq_ok.2 ⟨rfl, sheetMembers, hplan, rfl⟩
  have hnames : PlainNames sheet.fields := by
    constructor <;> simp [sheet, Field.serializedName, Field.named]
  have hentered : ∀ id, PlainAt ⟨[pixel, region, sheet]⟩ id := by
    intro id n hn
    rcases id with _ | _ | _ | id <;> cases hn
    · rw [hpixel]
      constructor <;> simp [pixel, Field.serializedName, Field.named]
    · rw [hregion]
      constructor <;> simp [region, Field.serializedName, Field.named]
    · rw [hsheet]
      exact hnames
  obtain ⟨ms, leaves, hms, -, -, -, -, hapart⟩ :=
    generate_keys_apart hgenerate (hsheet ▸ hnames) fun id _ => hentered id
  obtain rfl : sheetMembers = ms := Except.ok.inj (hplan.symm.trans hms)
  have hpixels : Receives (objectWriter "Sheet" sheetMembers).body (.temp ⟨.obj, 1⟩)
      (keysToAll (.temp ⟨.obj, 1⟩) (.line (.newObject ⟨.obj, 1⟩) ::
        writeMembers (.temp ⟨.item, 0⟩) (.temp ⟨.obj, 1⟩) 2
          [⟨[], "x", "x", .number ""⟩, ⟨[], "y", "y", .number ""⟩] ++
        [.line (.store (.item ⟨.arr, 0⟩) (.whole ⟨.obj, 1⟩))])) :=
    .temp (.tail _ (.tail _ (.head _))) (.head _)
  exact ⟨hgenerate, .root "jsonReceiver", hpixels, hapart⟩

end Emit
end Marshal
