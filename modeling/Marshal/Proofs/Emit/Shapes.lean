import Marshal.Proofs.Emit.Transfer

/-!
# The code of a shape

The code that writes a value of a shape, and the code that reads one, are followed along the
shape.  A temporary is nested deeper than all that the code around it speaks of, so declaring it
changes nothing there.

## Main definitions

* `Place.Below`, `Sink.Below` — speaking only of temporaries that are nested less deep.

## Main results

* `putsAll_writeShape` — writing a value of a shape puts its wire form into the container.
* `takesAll_readShape` — reading it takes the same from the container.
-/

namespace Marshal
namespace Emit

open Schema Code

/-! ### Temporaries of one nesting -/

theorem Env.sense_bind_self (env : Env) (t : Temp) (m : Sense) : (env.bind t m).sense t = m := by
  simp [Env.bind]

theorem Env.sense_bind_ne (env : Env) {t u : Temp} (h : u ≠ t) (m : Sense) :
    (env.bind t m).sense u = env.sense u := by
  simp [Env.bind, h]

/-- All temporaries of a place are nested less deep. -/
def Place.Below (d : Nat) : Place → Prop
  | .root _ => True
  | .temp t => t.depth < d
  | .member p _ | .entry p _ => p.Below d
  | .index p i => p.Below d ∧ i.depth < d
  | .item arr i => arr.depth < d ∧ i.depth < d

/-- All temporaries of a sink are nested less deep. -/
def Sink.Below (d : Nat) : Sink → Prop
  | .member object (.literal _) => object.Below d
  | .member object (.ofTemp _ t) => object.Below d ∧ t.depth < d
  | .item arr => arr.depth < d

section

variable {env : Env} {d d' : Nat} {t : Temp} {m : Sense} {p : Place} {sink : Sink}

theorem ne_of_depth_lt {u : Temp} (hu : u.depth < d) (ht : d ≤ t.depth) : u ≠ t := by
  rintro rfl
  omega

theorem Place.Below.mono (h : p.Below d) (hd : d ≤ d') : p.Below d' := by
  induction p with
  | root name => trivial
  | temp t => exact Nat.lt_of_lt_of_le h hd
  | member p name ih => exact ih h
  | entry p key ih => exact ih h
  | index p i ih => exact ⟨ih h.1, Nat.lt_of_lt_of_le h.2 hd⟩
  | item arr i => exact ⟨Nat.lt_of_lt_of_le h.1 hd, Nat.lt_of_lt_of_le h.2 hd⟩

theorem Place.Below.ne_temp (h : p.Below d) (ht : d ≤ t.depth) : p ≠ .temp t := by
  rintro rfl
  exact absurd h (Nat.not_lt.2 ht)

theorem Place.Below.spot_bind (h : p.Below d) (ht : d ≤ t.depth) :
    p.spot (env.bind t m) = p.spot env := by
  induction p with
  | root name => rfl
  | temp u => simp only [Place.spot, env.sense_bind_ne (ne_of_depth_lt h ht)]
  | member p name ih => simp only [Place.spot, ih h]
  | index p i ih => simp only [Place.spot, ih h.1, env.sense_bind_ne (ne_of_depth_lt h.2 ht)]
  | entry p key => rfl
  | item arr i => rfl

theorem Place.Below.source_bind (h : p.Below d) (ht : d ≤ t.depth) :
    p.source (env.bind t m) = p.source env := by
  cases p with
  | temp u => simp only [Place.source, env.sense_bind_ne (ne_of_depth_lt h ht)]
  | item arr i => simp only [Place.source, env.sense_bind_ne (ne_of_depth_lt h.2 ht)]
  | _ => rfl

theorem Place.Below.part_bind (h : p.Below d) (ht : d ≤ t.depth) (w : Wire) :
    p.part (env.bind t m) w = p.part env w := by
  rw [Place.part, Place.part, h.source_bind ht]

theorem Sink.Below.container (h : sink.Below d) : sink.container.Below d := by
  cases sink with
  | member object key =>
    cases key with
    | literal key => exact h
    | ofTemp s t => exact h.1
  | item arr => exact h

theorem Sink.Below.part_bind (h : sink.Below d) (ht : d ≤ t.depth) (w : Wire) :
    sink.part (env.bind t m) w = sink.part env w := by
  cases sink with
  | member object key =>
    cases key with
    | literal key => rfl
    | ofTemp s u =>
      simp only [Sink.part, Sink.slot, KeyText.slot, env.sense_bind_ne (ne_of_depth_lt h.2 ht)]
  | item arr => rfl

theorem spot_temp (env : Env) (t : Temp) (s : Spot) :
    (Place.temp t).spot (env.bind t (.spot s)) = s := by
  rw [Place.spot, env.sense_bind_self]

/-- An element at a position that is declared after a list. -/
theorem spot_index (h : p.Below d) {arr i : Temp} (harr : d ≤ arr.depth) (hi : d ≤ i.depth) :
    (Place.index p i).spot ((env.bind arr m).bind i .position) = .element (p.spot env) := by
  rw [Place.spot, Env.sense_bind_self, if_pos rfl, h.spot_bind hi, h.spot_bind harr]

/-- The item at a position that has been declared. -/
theorem part_item (env : Env) (arr i : Temp) (w : Wire) :
    (Place.item arr i).part (env.bind i .position) w = (.temp arr, ⟨.item, false, w⟩) := by
  rw [Place.part, Place.source, env.sense_bind_self, if_pos rfl]

/-- A part that a loop goes through, once another temporary has been declared. -/
theorem part_temp {env : Env} {item elem arr : Temp} {slot : Slot} (m : Sense) (h : item ≠ elem)
    (hitem : env.sense item = .part arr slot) (w : Wire) :
    (Place.temp item).part (env.bind elem m) w = (.temp arr, ⟨slot, false, w⟩) := by
  rw [Place.part, Place.source, env.sense_bind_ne h, hitem]

theorem spot_follow (env : Env) (p : Place) (names : List String) :
    (p.follow names).spot env = (p.spot env).follow names := by
  induction names generalizing p with
  | nil => rfl
  | cons name names ih => exact ih (.member p name)

theorem Place.Below.follow (h : p.Below d) (names : List String) : (p.follow names).Below d := by
  induction names generalizing p with
  | nil => exact h
  | cons name names ih => exact ih (p := .member p name) h

end

/-! ### Containers -/

section

variable {env : Env} {c c' : Contents} {t : Temp}

theorem of_map_mk (container : Place) (parts : List (Part Wire)) :
    Contents.of (parts.map (Prod.mk container)) container = parts := by
  induction parts with
  | nil => rfl
  | cons p ps ih => simpa [Contents.of] using ih

theorem outside_nil (c : Contents) : c.outside [] = c := by
  simp [Contents.outside]

theorem outside_append (ts : List Temp) (c c' : Contents) :
    (c ++ c').outside ts = c.outside ts ++ c'.outside ts :=
  List.filter_append ..

theorem outside_map_mk (t : Temp) (parts : List (Part Wire)) :
    Contents.outside [t] (parts.map (Prod.mk (.temp t))) = [] := by
  simp [Contents.outside]

theorem putsAll_nil (env : Env) (c : Contents) : putsAll env c [] = c := by
  rw [putsAll]

theorem putsAll_cons (env : Env) (c : Contents) (x : Code) (xs : List Code) :
    putsAll env c (x :: xs) = putsAll (x.declare env xs) (c ++ x.puts env c) xs := by
  rw [putsAll]

theorem takesAll_block (env : Env) (body rest : List Code) :
    takesAll env (.block body :: rest) = takesAll env body ++ takesAll env rest := by
  simp [takesAll, takes, Code.declare]

theorem takesAll_loop (env : Env) (head : LoopHead) (body rest : List Code) :
    takesAll env (.loop head body :: rest) =
      (takesAll (head.declare env body) body).repeated ++ takesAll env rest := by
  simp [takesAll, takes, Code.declare]

end

/-! ### What is declared along the way -/

theorem declared_writeShape (owner access : Place) (sink : Sink) (d : Nat) (shape : Shape)
    (rest : List Code) :
    declared (writeShape owner access sink d shape ++ rest) = declared rest := by
  cases shape <;> simp [writeShape, declared]

theorem declared_writeShape_self (owner access : Place) (sink : Sink) (d : Nat) (shape : Shape) :
    declared (writeShape owner access sink d shape) = [] := by
  simpa [declared] using declared_writeShape owner access sink d shape []

theorem declared_writeMembers (object receiver : Place) (d : Nat) (ms : List (Member Shape))
    (rest : List Code) :
    declared (writeMembers object receiver d ms ++ rest) = declared rest := by
  induction ms with
  | nil => rfl
  | cons m ms ih =>
    obtain ⟨owner, name, key, shape⟩ := m
    rw [writeMembers, List.append_assoc, declared_writeShape, ih]

theorem destination_readShape (elem : Temp) (owner target value : Place) (d : Nat) (shape : Shape)
    (rest : List Code) :
    destination elem (readShape owner target value d shape ++ rest) = destination elem rest := by
  cases shape <;> simp [readShape, destination]

theorem filing_readShape (env : Env) (key : Temp) (owner target value : Place) (d : Nat)
    (shape : Shape) (rest : List Code) :
    filing env key (readShape owner target value d shape ++ rest) = filing env key rest := by
  cases shape <;> simp [readShape, filing]

/-! ### Writing a shape -/

/-- A statement that declares an empty container. -/
structure Opens (new : Statement) (t : Temp) (m : Sense) (make : List (Part Wire) → Wire) :
    Prop where
  declare : ∀ (env : Env) rest, (Code.line new).declare env rest = env.bind t m
  puts : ∀ (env : Env) c, new.puts env c = []
  declared : ∀ rest, declared (.line new :: rest) = t :: declared rest
  wire : ∀ (env : Env) c, (Made.whole t).wire (env.bind t m) c = make (c.of (.temp t))

theorem opens_newObject (t : Temp) : Opens (.newObject t) t .object .object where
  declare _ _ := rfl
  puts _ _ := rfl
  declared _ := rfl
  wire env c := by rw [Made.wire, env.sense_bind_self]

theorem opens_newArray (t : Temp) : Opens (.newArray t) t .list .list where
  declare _ _ := rfl
  puts _ _ := rfl
  declared _ := rfl
  wire env c := by rw [Made.wire, env.sense_bind_self]

section

variable {env : Env} {c : Contents} {t : Temp} {m : Sense} {sink : Sink}

/-- **A container that is put together in a temporary is stored whole**, and what was put into the
temporary is seen nowhere else. -/
theorem putsAll_container {new : Statement} {make : List (Part Wire) → Wire}
    (hnew : Opens new t m make) {body : List Code} {parts : List (Part Wire)}
    (hsink : sink.Below t.depth) (hdeclared : ∀ rest, declared (body ++ rest) = declared rest)
    (hbody : ∀ rest, putsAll (env.bind t m) [] (body ++ rest) =
      putsAll (env.bind t m) (parts.map (Prod.mk (.temp t))) rest) (rest : List Code) :
    putsAll env c (.block (.line new :: (body ++ [.line (.store sink (.whole t))])) :: rest) =
      putsAll env (c ++ [sink.part env (make parts)]) rest := by
  have hne : (sink.part env (make parts)).1 ≠ .temp t := hsink.container.ne_temp (Nat.le_refl _)
  have hstore : putsAll env [] (.line new :: (body ++ [.line (.store sink (.whole t))])) =
      parts.map (Prod.mk (.temp t)) ++ [sink.part env (make parts)] := by
    rw [putsAll_cons, hnew.declare, puts, hnew.puts, List.append_nil, hbody, putsAll_cons,
      putsAll_nil, puts, Statement.puts, hnew.wire, of_map_mk, hsink.part_bind (Nat.le_refl _)]
  have houtside : Contents.outside [t] (parts.map (Prod.mk (.temp t)) ++
      [sink.part env (make parts)]) = [sink.part env (make parts)] := by
    rw [outside_append, outside_map_mk, List.nil_append]
    simp [Contents.outside, hne]
  have hnames : declared (.line new :: (body ++ [.line (.store sink (.whole t))])) = [t] := by
    rw [hnew.declared, hdeclared]
    rfl
  rw [putsAll_cons, puts, hstore, hnames, houtside]
  rfl

/-- A container is filled in a loop that writes one part in every turn. -/
theorem putsAll_filled {new : Statement} {make : List (Part Wire) → Wire}
    (hnew : Opens new t m make) (hsink : sink.Below t.depth) {head : LoopHead} {inner : List Code}
    {env' : Env} (hhead : head.declare (env.bind t m) inner = env') (sink' : Sink)
    (hcontainer : sink'.container = .temp t) (hdeclared : declared inner = []) {w : Wire}
    (hinner : putsAll env' [] inner = [sink'.part env' w]) (rest : List Code) :
    putsAll env c (.block [.line new, .loop head inner, .line (.store sink (.whole t))] :: rest) =
      putsAll env (c ++ [sink.part env (make [⟨sink'.slot env', true, w⟩])]) rest := by
  have hbody : ∀ rest, putsAll (env.bind t m) [] ([.loop head inner] ++ rest) =
      putsAll (env.bind t m) ([⟨sink'.slot env', true, w⟩].map (Prod.mk (.temp t))) rest := by
    intro rest
    rw [List.singleton_append, putsAll_cons, puts, hdeclared, outside_nil, hhead, hinner]
    simp [Contents.repeated, Sink.part, hcontainer, Code.declare]
  exact putsAll_container hnew hsink (fun rest => rfl) hbody rest

/-- An array is written position by position, however many there are. -/
theorem putsAll_indexed {owner access : Place} {d : Nat} {e : Shape} (haccess : access.Below d)
    (hsink : sink.Below d) (bound : Bound)
    (hinner : ∀ env : Env, putsAll env []
      (writeShape owner (.index access ⟨.i, d⟩) (.item ⟨.arr, d⟩) (d + 1) e) =
        [Sink.part env (.item ⟨.arr, d⟩) (e.wire ((Place.index access ⟨.i, d⟩).spot env))])
    (rest : List Code) :
    putsAll env c (.block [.line (.newArray ⟨.arr, d⟩), .loop (.count ⟨.i, d⟩ bound)
        (writeShape owner (.index access ⟨.i, d⟩) (.item ⟨.arr, d⟩) (d + 1) e),
        .line (.store sink (.whole ⟨.arr, d⟩))] :: rest) =
      putsAll env (c ++ [sink.part env (.list [⟨.item, true,
        e.wire (.element (access.spot env))⟩])]) rest := by
  let arr : Temp := ⟨.arr, d⟩
  let i : Temp := ⟨.i, d⟩
  have hhead : (LoopHead.count i bound).declare (env.bind arr .list)
      (writeShape owner (.index access i) (.item arr) (d + 1) e) =
      (env.bind arr .list).bind i .position := rfl
  have hinner := hinner ((env.bind arr .list).bind i .position)
  rw [spot_index haccess (Nat.le_refl d) (Nat.le_refl d)] at hinner
  exact putsAll_filled (opens_newArray arr) hsink hhead (.item arr) rfl
    (declared_writeShape_self ..) hinner rest

end

mutual

/-- **Writing a value of a shape puts its wire form into the container**, and nothing else
anywhere. -/
theorem putsAll_writeShape (env : Env) (c : Contents) (owner access : Place) (sink : Sink)
    (d : Nat) (shape : Shape) (rest : List Code) (haccess : access.Below d)
    (hsink : sink.Below d) :
    putsAll env c (writeShape owner access sink d shape ++ rest) =
      putsAll env (c ++ [sink.part env (shape.wire (access.spot env))]) rest := by
  match shape with
  | .number typeName => rfl
  | .bool => rfl
  | .text => rfl
  | .object =>
    let obj : Temp := ⟨.obj, d⟩
    have hbody : ∀ rest, putsAll (env.bind obj .object) []
        ([.line (.delegateWrite obj access)] ++ rest) = putsAll (env.bind obj .object)
          ([⟨.whole, false, .delegated (access.spot env)⟩].map (Prod.mk (.temp obj))) rest := by
      intro rest
      rw [List.singleton_append, putsAll_cons, puts, Statement.puts,
        haccess.spot_bind (Nat.le_refl d)]
      rfl
    exact putsAll_container (opens_newObject obj) hsink (fun rest => rfl) hbody rest
  | .record members =>
    let obj : Temp := ⟨.obj, d⟩
    refine putsAll_container (opens_newObject obj) hsink (declared_writeMembers access _ _ members)
      (fun rest => ?_) rest
    have hmembers := putsAll_writeMembers (env.bind obj .object) [] access (.temp obj) (d + 1)
      members rest (haccess.mono (Nat.le_succ d)) (Nat.lt_succ_self d)
    rw [hmembers, List.nil_append, haccess.spot_bind (Nat.le_refl d)]
  | .staticArray e =>
    refine putsAll_indexed haccess hsink (.size access) (fun env => ?_) rest
    have hinner := putsAll_writeShape env [] owner (.index access ⟨.i, d⟩) (.item ⟨.arr, d⟩) (d + 1)
      e [] ⟨haccess.mono (Nat.le_succ d), Nat.lt_succ_self d⟩ (Nat.lt_succ_self d)
    rwa [List.append_nil, putsAll_nil, List.nil_append] at hinner
  | .dynamicArray lengthVar e =>
    refine putsAll_indexed haccess hsink (.length (.member owner lengthVar)) (fun env => ?_) rest
    have hinner := putsAll_writeShape env [] owner (.index access ⟨.i, d⟩) (.item ⟨.arr, d⟩) (d + 1)
      e [] ⟨haccess.mono (Nat.le_succ d), Nat.lt_succ_self d⟩ (Nat.lt_succ_self d)
    rwa [List.append_nil, putsAll_nil, List.nil_append] at hinner
  | .vector e | .set e =>
    let arr : Temp := ⟨.arr, d⟩
    let item : Temp := ⟨.item, d⟩
    -- the loop variable stands for the elements of what is gone through
    have hhead : (LoopHead.each item (.place access)).declare (env.bind arr .list)
        (writeShape owner (.temp item) (.item arr) (d + 1) e) =
        (env.bind arr .list).bind item (.spot (.element (access.spot env))) := by
      rw [LoopHead.declare, haccess.spot_bind (Nat.le_refl d)]
    have hinner := putsAll_writeShape
      ((env.bind arr .list).bind item (.spot (.element (access.spot env)))) [] owner (.temp item)
      (.item arr) (d + 1) e [] (Nat.lt_succ_self d) (Nat.lt_succ_self d)
    rw [List.append_nil, putsAll_nil, spot_temp, List.nil_append] at hinner
    exact putsAll_filled (opens_newArray arr) hsink hhead (.item arr) rfl
      (declared_writeShape_self ..) hinner rest
  | .map s v =>
    let map : Temp := ⟨.map, d⟩
    let key : Temp := ⟨.key, d⟩
    let value : Temp := ⟨.value, d⟩
    let entries : Env := (env.bind map .object).bind key (.keyOf (access.spot env))
    let entry : Sink := .member (.temp map) (.ofTemp s key)
    have hhead : (LoopHead.pairs key value (.place access)).declare (env.bind map .object)
        (writeShape owner (.temp value) entry (d + 1) v) =
        entries.bind value (.spot (.element (access.spot env))) := by
      rw [LoopHead.declare, haccess.spot_bind (Nat.le_refl d)]
    -- the key that is written is that of the entry the value belongs to
    have hslot : entry.slot (entries.bind value (.spot (.element (access.spot env)))) =
        .entry s (access.spot env) := by
      rw [Sink.slot, KeyText.slot, Env.sense_bind_ne _ (by simp [key, value]), Env.sense_bind_self]
    have hinner := putsAll_writeShape
      (entries.bind value (.spot (.element (access.spot env)))) [] owner (.temp value)
      entry (d + 1) v [] (Nat.lt_succ_self d) ⟨Nat.lt_succ_self d, Nat.lt_succ_self d⟩
    rw [List.append_nil, putsAll_nil, spot_temp, List.nil_append] at hinner
    have hfilled := putsAll_filled (c := c) (opens_newObject map) hsink hhead entry rfl
      (declared_writeShape_self ..) hinner rest
    rw [hslot] at hfilled
    exact hfilled

theorem putsAll_writeMembers (env : Env) (c : Contents) (object receiver : Place) (d : Nat)
    (ms : List (Member Shape)) (rest : List Code) (hobject : object.Below d)
    (hreceiver : receiver.Below d) :
    putsAll env c (writeMembers object receiver d ms ++ rest) =
      putsAll env (c ++ (memberParts (object.spot env) ms).map (Prod.mk receiver)) rest := by
  match ms with
  | [] => simp [writeMembers, memberParts]
  | ⟨owner, name, key, shape⟩ :: ms =>
    have hshape := putsAll_writeShape env c (object.follow owner)
      (.member (object.follow owner) name) (.member receiver (.literal key)) d shape
      (writeMembers object receiver d ms ++ rest) (hobject.follow owner) hreceiver
    rw [writeMembers, List.append_assoc, hshape, putsAll_writeMembers _ _ _ _ _ _ _ hobject
      hreceiver, memberParts, List.append_assoc]
    rw [Place.spot, spot_follow]
    rfl

end

/-! ### Reading a shape -/

/-- A statement that declares a name for a container that is read. -/
structure Views (view : Statement) (t : Temp) (value : Place) (m : Sense)
    (make : List (Part Wire) → Wire) : Prop where
  takesAll : ∀ (env : Env) body, takesAll env (.line view :: body) =
    value.part env (make ((takesAll (env.bind t m) body).of (.temp t))) ::
      (takesAll (env.bind t m) body).outside [t]

theorem views_viewObject (t : Temp) (value : Place) :
    Views (.viewObject t value) t value .object .object where
  takesAll env body := by rw [Code.takesAll]; rfl

theorem views_viewArray (t : Temp) (value : Place) :
    Views (.viewArray t value) t value .list .list where
  takesAll env body := by rw [Code.takesAll]; rfl

section

variable {env : Env} {t : Temp} {m : Sense} {value : Place}

/-- **A container that is read under a name is a part where it is found**, and what is read under
the name is seen nowhere else. -/
theorem takesAll_container {view : Statement} {make : List (Part Wire) → Wire}
    (hview : Views view t value m make) {body : List Code} {parts : List (Part Wire)}
    (hbody : takesAll (env.bind t m) body = parts.map (Prod.mk (.temp t))) (rest : List Code) :
    takesAll env (.block (.line view :: body) :: rest) =
      value.part env (make parts) :: takesAll env rest := by
  rw [takesAll_block, hview.takesAll, hbody, of_map_mk, outside_map_mk]
  rfl

/-- A container is read in a loop that takes one part in every turn, after `start`. -/
theorem takesAll_filled {view : Statement} {make : List (Part Wire) → Wire}
    (hview : Views view t value m make) (start : List Code)
    (hstart : ∀ (env : Env) rest, takesAll env (start ++ rest) = takesAll env rest)
    {head : LoopHead} {inner : List Code} {env' : Env}
    (hhead : head.declare (env.bind t m) inner = env') {slot : Slot} {w : Wire}
    (hinner : takesAll env' inner = [(.temp t, ⟨slot, false, w⟩)]) (rest : List Code) :
    takesAll env (.block (.line view :: (start ++ [.loop head inner])) :: rest) =
      value.part env (make [⟨slot, true, w⟩]) :: takesAll env rest := by
  have hbody : takesAll (env.bind t m) (start ++ [.loop head inner]) =
      [(⟨slot, true, w⟩ : Part Wire)].map (Prod.mk (.temp t)) := by
    rw [hstart, takesAll_loop, hhead, hinner]
    rfl
  exact takesAll_container hview hbody rest

/-- An array is read position by position, whatever is done to it before. -/
theorem takesAll_indexed {owner target : Place} {d : Nat} {e : Shape} (htarget : target.Below d)
    (start : List Code)
    (hstart : ∀ (env : Env) rest, takesAll env (start ++ rest) = takesAll env rest) (bound : Bound)
    (hinner : ∀ env : Env, takesAll env
      (readShape owner (.index target ⟨.i, d⟩) (.item ⟨.arr, d⟩ ⟨.i, d⟩) (d + 1) e) =
        [Place.part env (.item ⟨.arr, d⟩ ⟨.i, d⟩) (e.wire ((Place.index target ⟨.i, d⟩).spot env))])
    (rest : List Code) :
    takesAll env (.block (.line (.viewArray ⟨.arr, d⟩ value) :: (start ++
        [.loop (.count ⟨.i, d⟩ bound)
          (readShape owner (.index target ⟨.i, d⟩) (.item ⟨.arr, d⟩ ⟨.i, d⟩) (d + 1) e)])) ::
        rest) =
      value.part env (.list [⟨.item, true, e.wire (.element (target.spot env))⟩]) ::
        takesAll env rest := by
  let arr : Temp := ⟨.arr, d⟩
  let i : Temp := ⟨.i, d⟩
  have hhead : (LoopHead.count i bound).declare (env.bind arr .list)
      (readShape owner (.index target i) (.item arr i) (d + 1) e) =
      (env.bind arr .list).bind i .position := rfl
  have hinner := hinner ((env.bind arr .list).bind i .position)
  rw [spot_index htarget (Nat.le_refl d) (Nat.le_refl d), part_item] at hinner
  exact takesAll_filled (views_viewArray arr value) start hstart hhead hinner rest

/-- An element that is read into a temporary is one of the container it is put into. -/
theorem takesAll_new (env : Env) {new : Statement} {elem : Temp} {target target' : Place}
    (hnew : new = .newElement elem target' ∨ new = .newMapped elem target') {rest : List Code}
    (hdestination : destination elem rest = some target) :
    takesAll env (.line new :: rest) =
      takesAll (env.bind elem (.spot (.element (target.spot env)))) rest := by
  rcases hnew with rfl | rfl
  · simp [takesAll, takes, Statement.takes, Code.declare, hdestination]
  · simp [takesAll, takes, Statement.takes, Code.declare, hdestination]

end

mutual

/-- **Reading a value of a shape takes its wire form from the container**, and nothing else from
anywhere. -/
theorem takesAll_readShape (env : Env) (owner target value : Place) (d : Nat) (shape : Shape)
    (rest : List Code) (htarget : target.Below d) :
    takesAll env (readShape owner target value d shape ++ rest) =
      value.part env (shape.wire (target.spot env)) :: takesAll env rest := by
  match shape with
  | .number typeName => rfl
  | .bool => rfl
  | .text => rfl
  | .object => rfl
  | .record members =>
    let obj : Temp := ⟨.obj, d⟩
    have hmembers := takesAll_readMembers (env.bind obj .object) target (.temp obj) (d + 1) members
      [] (htarget.mono (Nat.le_succ d))
    rw [List.append_nil, takesAll, List.append_nil, htarget.spot_bind (Nat.le_refl d)] at hmembers
    exact takesAll_container (views_viewObject obj value) hmembers rest
  | .staticArray e =>
    refine takesAll_indexed htarget [] (fun _ _ => rfl) (.sizeAndItems target ⟨.arr, d⟩)
      (fun env => ?_) rest
    have hinner := takesAll_readShape env owner (.index target ⟨.i, d⟩) (.item ⟨.arr, d⟩ ⟨.i, d⟩)
      (d + 1) e [] ⟨htarget.mono (Nat.le_succ d), Nat.lt_succ_self d⟩
    rwa [List.append_nil, takesAll] at hinner
  | .dynamicArray lengthVar e =>
    -- the array is made as long as the list before it is filled
    let start : List Code := [.line (.release target),
      .line (.setLength (.member owner lengthVar) ⟨.arr, d⟩), .line (.allocate target ⟨.arr, d⟩)]
    refine takesAll_indexed htarget start (fun _ _ => rfl) (.items ⟨.arr, d⟩) (fun env => ?_) rest
    have hinner := takesAll_readShape env owner (.index target ⟨.i, d⟩) (.item ⟨.arr, d⟩ ⟨.i, d⟩)
      (d + 1) e [] ⟨htarget.mono (Nat.le_succ d), Nat.lt_succ_self d⟩
    rwa [List.append_nil, takesAll] at hinner
  | .vector e =>
    let arr : Temp := ⟨.arr, d⟩
    let item : Temp := ⟨.item, d⟩
    let elem : Temp := ⟨.elem, d⟩
    let items : Env := (env.bind arr .list).bind item (.part arr .item)
    have hspot : target.spot items = target.spot env :=
      (htarget.spot_bind (Nat.le_refl d)).trans (htarget.spot_bind (Nat.le_refl d))
    have hinner := takesAll_readShape (items.bind elem (.spot (.element (target.spot env)))) owner
      (.temp elem) (.temp item) (d + 1) e [] (Nat.lt_succ_self d)
    rw [List.append_nil, takesAll, spot_temp,
      part_temp _ (by simp [item, elem]) (Env.sense_bind_self ..)] at hinner
    have hhead : (LoopHead.each item (.items arr)).declare (env.bind arr .list)
        (.line (.appendElement elem target) ::
          readShape owner (.temp elem) (.temp item) (d + 1) e) = items := rfl
    have hbody : takesAll items (.line (.appendElement elem target) ::
        readShape owner (.temp elem) (.temp item) (d + 1) e) =
        [(.temp arr, ⟨.item, false, e.wire (.element (target.spot env))⟩)] := by
      rw [← hinner, ← hspot]
      rfl
    exact takesAll_filled (views_viewArray arr value) [.line (.clear target)] (fun _ _ => rfl)
      hhead hbody rest
  | .set e =>
    let arr : Temp := ⟨.arr, d⟩
    let item : Temp := ⟨.item, d⟩
    let elem : Temp := ⟨.elem, d⟩
    let items : Env := (env.bind arr .list).bind item (.part arr .item)
    let insertion : List Code := [.line (.insert target elem)]
    let reading := readShape owner (.temp elem) (.temp item) (d + 1) e ++ insertion
    have hspot : target.spot items = target.spot env :=
      (htarget.spot_bind (Nat.le_refl d)).trans (htarget.spot_bind (Nat.le_refl d))
    -- the new element counts as one of the set because it is inserted there
    have hdestination : destination elem reading = some target := by
      rw [destination_readShape, destination, if_pos rfl]
    have hinner := takesAll_readShape (items.bind elem (.spot (.element (target.spot env)))) owner
      (.temp elem) (.temp item) (d + 1) e insertion (Nat.lt_succ_self d)
    rw [spot_temp, part_temp _ (by simp [item, elem]) (Env.sense_bind_self ..)] at hinner
    have hhead : (LoopHead.each item (.items arr)).declare (env.bind arr .list)
        (.line (.newElement elem target) :: reading) = items := rfl
    have hbody : takesAll items (.line (.newElement elem target) :: reading) =
        [(.temp arr, ⟨.item, false, e.wire (.element (target.spot env))⟩)] := by
      rw [takesAll_new items (.inl rfl) hdestination, hspot]
      exact hinner
    exact takesAll_filled (views_viewArray arr value) [.line (.clear target)] (fun _ _ => rfl)
      hhead hbody rest
  | .map s v =>
    let map : Temp := ⟨.map, d⟩
    let key : Temp := ⟨.key, d⟩
    let mapped : Temp := ⟨.value, d⟩
    let elem : Temp := ⟨.elem, d⟩
    let keys : Env := (env.bind map .object).bind key .nothing
    let entries : Env := keys.bind mapped (.part map (.entry s (target.spot env)))
    let insertion : List Code := [.line (.emplace target s key elem)]
    let reading := readShape owner (.temp elem) (.temp mapped) (d + 1) v ++ insertion
    have hmap : target.spot (env.bind map .object) = target.spot env :=
      htarget.spot_bind (Nat.le_refl d)
    have hspot : target.spot entries = target.spot env :=
      (htarget.spot_bind (Nat.le_refl d)).trans ((htarget.spot_bind (Nat.le_refl d)).trans hmap)
    have hdestination : destination elem reading = some target := by
      rw [destination_readShape, destination, if_pos rfl]
    -- and it is filed under the key that was read with it
    have hfiling : filing (env.bind map .object) key (.line (.newMapped elem target) :: reading) =
        .entry s (target.spot env) := by
      refine (filing_readShape _ _ _ _ _ _ v insertion).trans ?_
      rw [filing, if_pos rfl, hmap]
    have hinner := takesAll_readShape (entries.bind elem (.spot (.element (target.spot env)))) owner
      (.temp elem) (.temp mapped) (d + 1) v insertion (Nat.lt_succ_self d)
    rw [spot_temp, part_temp _ (by simp [mapped, elem]) (Env.sense_bind_self ..)] at hinner
    have hhead : (LoopHead.pairs key mapped (.members map)).declare (env.bind map .object)
        (.line (.newMapped elem target) :: reading) = entries := by
      rw [LoopHead.declare, hfiling]
    have hbody : takesAll entries (.line (.newMapped elem target) :: reading) =
        [(.temp map,
          ⟨.entry s (target.spot env), false, v.wire (.element (target.spot env))⟩)] := by
      rw [takesAll_new entries (.inr rfl) hdestination, hspot]
      exact hinner
    exact takesAll_filled (views_viewObject map value) [.line (.clear target)] (fun _ _ => rfl)
      hhead hbody rest

theorem takesAll_readMembers (env : Env) (object source : Place) (d : Nat)
    (ms : List (Member Shape)) (rest : List Code) (hobject : object.Below d) :
    takesAll env (readMembers object source d ms ++ rest) =
      (memberParts (object.spot env) ms).map (Prod.mk source) ++ takesAll env rest := by
  match ms with
  | [] => simp [readMembers, memberParts]
  | ⟨owner, name, key, shape⟩ :: ms =>
    have hshape := takesAll_readShape env (object.follow owner)
      (.member (object.follow owner) name) (.entry source key) d shape
      (readMembers object source d ms ++ rest) (hobject.follow owner)
    rw [readMembers, List.append_assoc, hshape, takesAll_readMembers _ _ _ _ _ _ hobject,
      memberParts, Place.spot, spot_follow]
    rfl

end

end Emit
end Marshal
