import Marshal.Emit.Routines
import Mathlib.Data.List.Nodup

/-!
# Temporaries in scope

A line of code is put together from **pieces**: texts, and names of temporaries, which it declares
or uses.  A temporary is in scope from the line that declares it to the end of the block, and if
the start of a loop declares it, in that start and in the body.

The name of a temporary tells how deep it is nested.  Code for a value at some depth only declares
temporaries of that depth and below it, while all those in scope there come from further out; so no
name is declared again while it is in scope, and what is used is there.

## Main definitions

* `Piece`, `Statement.pieces`, `LoopHead.pieces` — what lines are put together from.
* `Fits`, `Code.Scoped` — declarations of new names, and uses of names in scope.

## Main results

* `Temp.spell_injective` — temporaries with one name are one.
* `Statement.spell_eq`, `LoopHead.spell_eq` — lines are put together from their pieces.
* `scoped_writeShape`, `scoped_readShape` — code for a shape keeps to the scopes.
* `generate_scoped` — so do the routines of a node.
-/

namespace Marshal
namespace Emit

open Schema

/-! ### Names -/

theorem Role.spell_injective {r r' : Role} (h : r.spell = r'.spell) : r = r' := by
  revert h
  cases r <;> cases r' <;> simp [Role.spell]

/-- No role has the mark that ends it in a name. -/
theorem Role.mark_notMem (r : Role) : ∀ c ∈ r.spell.toList, c ≠ '_' := by
  cases r <;> simp [Role.spell]

theorem toList_spell (t : Temp) :
    t.spell.toList = t.role.spell.toList ++ '_' :: Nat.toDigits 10 t.depth := by
  rw [Temp.spell, tempName, String.toList_append, String.toList_append,
    Nat.toString_eq_ofList_toDigits, String.toList_ofList, List.append_assoc]
  simp

/-- The role is what stands before the mark. -/
theorem takeWhile_spell (t : Temp) :
    t.spell.toList.takeWhile (· ≠ '_') = t.role.spell.toList := by
  rw [toList_spell, List.takeWhile_append_of_pos (by simpa using t.role.mark_notMem)]
  simp

/-- Temporaries with one name are one. -/
theorem Temp.spell_injective {t u : Temp} (h : t.spell = u.spell) : t = u := by
  have hrole : t.role = u.role := by
    apply Role.spell_injective
    rw [← String.toList_inj, ← takeWhile_spell, ← takeWhile_spell, h]
  have hlist := congrArg String.toList h
  rw [toList_spell, toList_spell, hrole] at hlist
  have hdigits := (List.cons.inj (List.append_cancel_left hlist)).2
  have hdepth := congrArg (fun ds => Nat.ofDigitChars 10 ds 0) hdigits
  simp only [Nat.ofDigitChars_ten_toDigits] at hdepth
  cases t
  cases u
  simp_all

/-! ### Pieces of a line -/

/-- A piece of a line. -/
inductive Piece where
  /-- A text. -/
  | text (s : String)
  /-- The name of a temporary that is declared. -/
  | new (t : Temp)
  /-- The name of a temporary that is used. -/
  | use (t : Temp)
  deriving DecidableEq, Repr, Inhabited

/-- How a piece is spelled. -/
def Piece.spell : Piece → String
  | .text s => s
  | .new t | .use t => t.spell

/-- The text that pieces make. -/
def spellAll (ps : List Piece) : String := String.join (ps.map Piece.spell)

/-- The temporaries that are declared. -/
def declares (ps : List Piece) : List Temp :=
  ps.filterMap fun
    | .new t => some t
    | _ => none

/-- The temporaries that are used. -/
def uses (ps : List Piece) : List Temp :=
  ps.filterMap fun
    | .use t => some t
    | _ => none

section

variable (ps qs : List Piece) (s : String) (t : Temp)

@[simp] theorem spellAll_nil : spellAll [] = "" := rfl

@[simp] theorem spellAll_cons (p : Piece) : spellAll (p :: ps) = p.spell ++ spellAll ps := by
  simp [spellAll]

@[simp] theorem spellAll_append : spellAll (ps ++ qs) = spellAll ps ++ spellAll qs := by
  simp [spellAll]

@[simp] theorem declares_nil : declares [] = [] := rfl

@[simp] theorem declares_text : declares (.text s :: ps) = declares ps := rfl

@[simp] theorem declares_new : declares (.new t :: ps) = t :: declares ps := rfl

@[simp] theorem declares_use : declares (.use t :: ps) = declares ps := rfl

@[simp] theorem declares_append : declares (ps ++ qs) = declares ps ++ declares qs := by
  simp [declares]

@[simp] theorem uses_nil : uses [] = [] := rfl

@[simp] theorem uses_text : uses (.text s :: ps) = uses ps := rfl

@[simp] theorem uses_new : uses (.new t :: ps) = uses ps := rfl

@[simp] theorem uses_use : uses (.use t :: ps) = t :: uses ps := rfl

@[simp] theorem uses_append : uses (ps ++ qs) = uses ps ++ uses qs := by
  simp [uses]

end

/-- The pieces of a place. -/
def Place.pieces : Place → List Piece
  | .root name => [.text name]
  | .temp t => [.use t]
  | .member p name => p.pieces ++ [.text ".", .text name]
  | .index p i => p.pieces ++ [.text "[", .use i, .text "]"]
  | .entry p key => p.pieces ++ [.text ".GetMember(", .text (literal key), .text ")"]
  | .item arr i => [.use arr, .text ".GetItems()[", .use i, .text "]"]

/-- The pieces of the text of a key. -/
def KeyText.pieces : KeyText → List Piece
  | .literal key => [.text (Emit.literal key)]
  | .ofTemp .int t => [.text "std::to_string(", .use t, .text ")"]
  | .ofTemp .float t | .ofTemp .double t =>
      [.text "std::format(\"\x7b\x7d\", ", .use t, .text ")"]
  | .ofTemp .bool t => [.text "std::string(", .use t, .text " ? \"true\" : \"false\")"]
  | .ofTemp .string t => [.use t]

/-- The pieces of where a value is written to. -/
def Sink.pieces : Sink → List Piece
  | .member object key => object.pieces ++ .text ".AddMember(" :: key.pieces ++ [.text ", "]
  | .item arr => [.use arr, .text ".AddItem("]

/-- The pieces of a JSON value. -/
def Made.pieces : Made → List Piece
  | .number p => .text "JSONNumber(static_cast<double>(" :: p.pieces ++ [.text "))"]
  | .bool p => .text "JSONBool(" :: p.pieces ++ [.text ")"]
  | .text p => .text "JSONString(" :: p.pieces ++ [.text ")"]
  | .whole t => [.use t]

/-- The pieces of the type of a place. -/
def typePieces (p : Place) : List Piece :=
  .text "std::decay_t<decltype(" :: p.pieces ++ [.text ")>"]

/-- The pieces of the number of items of a JSON list. -/
def countPieces (arr : Temp) : List Piece := [.use arr, .text ".GetItems().size()"]

/-- The pieces of the key of a map, made from the text of a key. -/
def keyPieces (target : Place) (s : Scalar) (key : Temp) : List Piece :=
  match s with
  | .int =>
      .text "static_cast<" :: typePieces target ++
        [.text "::key_type>(std::stoll(", .use key, .text "))"]
  | .float => [.text "std::stof(", .use key, .text ")"]
  | .double => [.text "std::stod(", .use key, .text ")"]
  | .bool => [.use key, .text " == \"true\""]
  | .string => [.use key]

/-- The pieces of a statement. -/
def Statement.pieces : Statement → List Piece
  | .store sink value => sink.pieces ++ value.pieces ++ [.text ");"]
  | .newObject t => [.text "JSONObject ", .new t, .text ";"]
  | .newArray t => [.text "JSONArray ", .new t, .text ";"]
  | .delegateWrite t p =>
      [.text "JSONSerialize(", .use t, .text ", "] ++ p.pieces ++ [.text ");"]
  | .readNumber target typeName value =>
      target.pieces ++ .text " = static_cast<" ::
        (if typeName = "" then typePieces target else [.text typeName]) ++ .text ">(" ::
        value.pieces ++ [.text ".as<JSONNumber>().value);"]
  | .readBool target value =>
      target.pieces ++ .text " = " :: value.pieces ++ [.text ".as<JSONBool>().value;"]
  | .readText target value =>
      target.pieces ++ .text " = " :: value.pieces ++ [.text ".as<JSONString>().value;"]
  | .delegateRead target value =>
      .text "JSONDeserialize(" :: target.pieces ++ .text ", " :: value.pieces ++
        [.text ".as<JSONObject>());"]
  | .viewObject t value =>
      [.text "const JSONObject& ", .new t, .text " = "] ++ value.pieces ++
        [.text ".as<JSONObject>();"]
  | .viewArray t value =>
      [.text "const JSONArray& ", .new t, .text " = "] ++ value.pieces ++
        [.text ".as<JSONArray>();"]
  | .clear target => target.pieces ++ [.text ".clear();"]
  | .release target => .text "delete[] " :: target.pieces ++ [.text ";"]
  | .setLength length arr =>
      length.pieces ++ .text " = static_cast<" :: typePieces length ++ .text ">(" ::
        countPieces arr ++ [.text ");"]
  | .allocate target arr =>
      target.pieces ++ .text " = new std::remove_pointer_t<" :: typePieces target ++
        .text ">[" :: countPieces arr ++ [.text "];"]
  | .appendElement elem target =>
      [.text "auto&& ", .new elem, .text " = "] ++ target.pieces ++ [.text ".emplace_back();"]
  | .newElement elem target =>
      typePieces target ++ [.text "::value_type ", .new elem, .text "\x7b\x7d;"]
  | .newMapped elem target =>
      typePieces target ++ [.text "::mapped_type ", .new elem, .text "\x7b\x7d;"]
  | .insert target elem => target.pieces ++ [.text ".insert(std::move(", .use elem, .text "));"]
  | .emplace target s key elem =>
      target.pieces ++ .text ".emplace(" :: keyPieces target s key ++
        [.text ", std::move(", .use elem, .text "));"]
  | .newDocument name => [.text "JSONStructure ", .text name, .text ";"]
  | .parseDocument name stream =>
      [.text "JSONStructure ", .text name, .text " = JSONStructure::Parse(", .text stream,
        .text ");"]
  | .printDocument name stream => [.text stream, .text " << ", .text name, .text ".Stringify();"]

/-- The pieces of the condition on a position. -/
def Bound.pieces (i : Temp) : Bound → List Piece
  | .size p =>
      [.use i, .text " < sizeof("] ++ p.pieces ++ .text ") / sizeof(" :: p.pieces ++
        [.text "[0])"]
  | .length p => [.use i, .text " < static_cast<std::size_t>("] ++ p.pieces ++ [.text ")"]
  | .items arr => [.use i, .text " < "] ++ countPieces arr
  | .sizeAndItems p arr =>
      [.use i, .text " < sizeof("] ++ p.pieces ++ .text ") / sizeof(" :: p.pieces ++
        [.text "[0]) && ", .use i, .text " < "] ++ countPieces arr

/-- The pieces of a range. -/
def Range.pieces : Range → List Piece
  | .place p => p.pieces
  | .items arr => [.use arr, .text ".GetItems()"]
  | .members map => [.use map, .text ".GetMembers()"]

/-- The pieces of the start of a loop. -/
def LoopHead.pieces : LoopHead → List Piece
  | .count i bound =>
      [.text "for (std::size_t ", .new i, .text " = 0; "] ++ bound.pieces i ++
        [.text "; ++", .use i, .text ")"]
  | .each item range =>
      [.text "for (const auto& ", .new item, .text " : "] ++ range.pieces ++ [.text ")"]
  | .pairs key value range =>
      [.text "for (const auto& [", .new key, .text ", ", .new value, .text "] : "] ++
        range.pieces ++ [.text ")"]

@[simp] theorem Place.spellAll_pieces (p : Place) : spellAll p.pieces = p.spell := by
  induction p with
  | root | temp | item => simp [pieces, spell, Piece.spell, String.append_assoc]
  | member _ _ ih | index _ _ ih | entry _ _ ih =>
    simp [pieces, spell, Piece.spell, ih, String.append_assoc]

@[simp] theorem spellAll_typePieces (p : Place) : spellAll (typePieces p) = typeOf p := by
  dsimp only [typePieces, typeOf]
  simp [Piece.spell, String.append_assoc]

@[simp] theorem spellAll_countPieces (arr : Temp) : spellAll (countPieces arr) = itemCount arr := by
  simp [countPieces, itemCount, Piece.spell]

@[simp] theorem KeyText.spellAll_pieces (key : KeyText) : spellAll key.pieces = key.spell := by
  cases key with
  | literal key =>
    dsimp only [pieces, spell]
    simp [Piece.spell]
  | ofTemp s t =>
    cases s <;> dsimp only [pieces, spell] <;> simp [Piece.spell, String.append_assoc]

@[simp] theorem Made.spellAll_pieces (value : Made) : spellAll value.pieces = value.spell := by
  cases value <;> dsimp only [pieces, spell] <;> simp [Piece.spell, String.append_assoc]

@[simp] theorem spellAll_keyPieces (target : Place) (s : Scalar) (key : Temp) :
    spellAll (keyPieces target s key) = keyOfText target s key := by
  cases s <;> dsimp only [keyPieces, keyOfText] <;> simp [Piece.spell, String.append_assoc]

/-- A statement is put together from its pieces. -/
theorem Statement.spell_eq (s : Statement) : s.spell = spellAll s.pieces := by
  cases s with
  | store sink value =>
    cases sink <;> dsimp only [pieces, Sink.pieces, spell] <;>
      simp [Piece.spell, String.append_assoc]
  | readNumber target typeName value =>
    dsimp only [pieces, spell]
    by_cases htype : typeName = "" <;> simp [Piece.spell, htype, String.append_assoc]
  | _ =>
    dsimp only [pieces, spell]
    simp [Piece.spell, String.append_assoc]

@[simp] theorem Bound.spellAll_pieces (i : Temp) (bound : Bound) :
    spellAll (bound.pieces i) = bound.spell i := by
  cases bound <;> dsimp only [pieces, spell] <;> simp [Piece.spell, String.append_assoc]

@[simp] theorem Range.spellAll_pieces (range : Range) : spellAll range.pieces = range.spell := by
  cases range <;> dsimp only [pieces, spell] <;> simp [Piece.spell]

/-- The start of a loop is put together from its pieces. -/
theorem LoopHead.spell_eq (head : LoopHead) : head.spell = spellAll head.pieces := by
  cases head <;> dsimp only [pieces, spell] <;> simp [Piece.spell, String.append_assoc]

/-! ### Scopes -/

/-- A line fits among the temporaries in scope: those that it declares have names of their own,
and those that it uses are in scope, or declared by the line. -/
structure Fits (known : List Temp) (ps : List Piece) : Prop where
  fresh : ∀ t ∈ declares ps, t.spell ∉ known.map Temp.spell
  apart : ((declares ps).map Temp.spell).Nodup
  inScope : uses ps ⊆ declares ps ++ known

namespace Code

/-- What a piece of code declares for the rest of its block. -/
def binds : Code → List Temp
  | .line s => declares s.pieces
  | .block _ | .loop _ _ => []

/-- What pieces of code declare for the rest of their block, the last one first. -/
def bindsAll : List Code → List Temp
  | [] => []
  | c :: cs => bindsAll cs ++ c.binds

mutual

/-- All lines of a piece of code fit where `known` is in scope at its start. -/
def Scoped (known : List Temp) : Code → Prop
  | .line s => Fits known s.pieces
  | .block body => ScopedAll known body
  | .loop head body => Fits known head.pieces ∧ ScopedAll (declares head.pieces ++ known) body

/-- All lines of pieces of code fit where `known` is in scope at the start. -/
def ScopedAll (known : List Temp) : List Code → Prop
  | [] => True
  | c :: cs => c.Scoped known ∧ ScopedAll (c.binds ++ known) cs

end

theorem scopedAll_cons {known : List Temp} {c : Code} {cs : List Code} :
    ScopedAll known (c :: cs) ↔ c.Scoped known ∧ ScopedAll (c.binds ++ known) cs := by
  rw [ScopedAll]

@[simp] theorem bindsAll_append (cs cs' : List Code) :
    bindsAll (cs ++ cs') = bindsAll cs' ++ bindsAll cs := by
  induction cs with
  | nil => simp [bindsAll]
  | cons c cs ih => simp [bindsAll, ih]

theorem scopedAll_append {known : List Temp} {cs cs' : List Code} :
    ScopedAll known (cs ++ cs') ↔
      ScopedAll known cs ∧ ScopedAll (bindsAll cs ++ known) cs' := by
  induction cs generalizing known with
  | nil => simp [ScopedAll, bindsAll]
  | cons c cs ih => simp [ScopedAll, bindsAll, ih, and_assoc]

theorem scopedAll_block {known : List Temp} {body : List Code} :
    ScopedAll known [.block body] ↔ ScopedAll known body := by
  simp [ScopedAll, Scoped]

end Code

@[simp] theorem Place.declares_pieces (p : Place) : declares p.pieces = [] := by
  induction p with
  | root | temp | item => rfl
  | member _ _ ih | index _ _ ih | entry _ _ ih => simp [pieces, ih]

@[simp] theorem declares_typePieces (p : Place) : declares (typePieces p) = [] := by
  simp [typePieces]

@[simp] theorem declares_countPieces (arr : Temp) : declares (countPieces arr) = [] := rfl

@[simp] theorem KeyText.declares_pieces (key : KeyText) : declares key.pieces = [] := by
  cases key with
  | literal key => rfl
  | ofTemp s t => cases s <;> rfl

@[simp] theorem Sink.declares_pieces (sink : Sink) : declares sink.pieces = [] := by
  cases sink <;> simp [pieces]

@[simp] theorem Made.declares_pieces (value : Made) : declares value.pieces = [] := by
  cases value <;> simp [pieces]

@[simp] theorem declares_keyPieces (target : Place) (s : Scalar) (key : Temp) :
    declares (keyPieces target s key) = [] := by
  cases s <;> simp [keyPieces]

@[simp] theorem Bound.declares_pieces (i : Temp) (bound : Bound) :
    declares (bound.pieces i) = [] := by
  cases bound <;> simp [pieces]

@[simp] theorem Range.declares_pieces (range : Range) : declares range.pieces = [] := by
  cases range <;> simp [pieces]

@[simp] theorem uses_typePieces (p : Place) : uses (typePieces p) = uses p.pieces := by
  simp [typePieces]

@[simp] theorem uses_countPieces (arr : Temp) : uses (countPieces arr) = [arr] := rfl

@[simp] theorem uses_follow (p : Place) (names : List String) :
    uses (p.follow names).pieces = uses p.pieces := by
  induction names generalizing p with
  | nil => rfl
  | cons name names ih =>
    have hnext : uses (p.follow (name :: names)).pieces = uses (Place.member p name).pieces :=
      ih (.member p name)
    rw [hnext]
    simp [Place.pieces]

@[simp] theorem uses_ofTemp (s : Scalar) (t : Temp) : uses (KeyText.ofTemp s t).pieces = [t] := by
  cases s <;> rfl

theorem uses_keyPieces_subset (target : Place) (s : Scalar) (key : Temp) :
    uses (keyPieces target s key) ⊆ key :: uses target.pieces := by
  cases s <;> simp [keyPieces]

section

variable {known : List Temp}

theorem fits_of_notMem {ps : List Piece} (hfresh : ∀ t ∈ declares ps, t ∉ known)
    (hapart : (declares ps).Nodup) (huses : uses ps ⊆ declares ps ++ known) : Fits known ps := by
  refine ⟨?_, hapart.map fun t u h => Temp.spell_injective h, huses⟩
  intro t ht hmem
  obtain ⟨u, hu, hspell⟩ := List.mem_map.1 hmem
  exact hfresh t ht (Temp.spell_injective hspell ▸ hu)

namespace Code

/-- A line that declares nothing. -/
theorem scopedAll_use {s : Statement} {rest : List Code} (hs : declares s.pieces = [])
    (huses : uses s.pieces ⊆ known) (hrest : ScopedAll known rest) :
    ScopedAll known (.line s :: rest) := by
  rw [scopedAll_cons, Scoped, binds, hs]
  exact ⟨fits_of_notMem (by simp [hs]) (by simp [hs]) (by simpa [hs] using huses), hrest⟩

/-- A line that declares a temporary. -/
theorem scopedAll_new {s : Statement} {t : Temp} {rest : List Code} (hs : declares s.pieces = [t])
    (ht : t ∉ known) (huses : uses s.pieces ⊆ known) (hrest : ScopedAll (t :: known) rest) :
    ScopedAll known (.line s :: rest) := by
  rw [scopedAll_cons, Scoped, binds, hs]
  refine ⟨fits_of_notMem (by simpa [hs] using ht) (by simp [hs]) ?_, hrest⟩
  rw [hs]
  exact List.Subset.trans huses (List.subset_cons_self t known)

/-- A loop. -/
theorem scopedAll_loop {head : LoopHead} {l : List Temp} {body rest : List Code}
    (hhead : declares head.pieces = l) (hl : ∀ t ∈ l, t ∉ known) (hapart : l.Nodup)
    (huses : uses head.pieces ⊆ l ++ known) (hbody : ScopedAll (l ++ known) body)
    (hrest : ScopedAll known rest) : ScopedAll known (.loop head body :: rest) := by
  subst hhead
  rw [scopedAll_cons, Scoped]
  exact ⟨⟨fits_of_notMem hl hapart huses, hbody⟩, hrest⟩

end Code

/-! ### Code for shapes -/

/-- All temporaries come from further out. -/
def Outer (d : Nat) (known : List Temp) : Prop := ∀ t ∈ known, t.depth < d

variable {d : Nat}

theorem Outer.notMem (h : Outer d known) (r : Role) : (⟨r, d⟩ : Temp) ∉ known := fun hmem =>
  Nat.lt_irrefl d (h _ hmem)

theorem Outer.inner (h : Outer d known) {l : List Temp} (hl : ∀ t ∈ l, t.depth = d) :
    Outer (d + 1) (l ++ known) := by
  intro t ht
  rcases List.mem_append.1 ht with ht | ht
  · have hdepth := hl t ht
    omega
  · have hdepth := h t ht
    omega

end

@[simp] theorem bindsAll_writeShape (owner access : Place) (sink : Sink) (d : Nat)
    (shape : Shape) : Code.bindsAll (writeShape owner access sink d shape) = [] := by
  cases shape <;> simp [writeShape, Code.bindsAll, Code.binds, Statement.pieces]

@[simp] theorem bindsAll_readShape (owner target value : Place) (d : Nat) (shape : Shape) :
    Code.bindsAll (readShape owner target value d shape) = [] := by
  cases shape with
  | number typeName =>
    by_cases h : typeName = "" <;>
      simp [readShape, Code.bindsAll, Code.binds, Statement.pieces, h]
  | _ => simp [readShape, Code.bindsAll, Code.binds, Statement.pieces]

@[simp] theorem bindsAll_writeMembers (object receiver : Place) (d : Nat)
    (ms : List (Member Shape)) : Code.bindsAll (writeMembers object receiver d ms) = [] := by
  induction ms with
  | nil => rfl
  | cons m ms ih => simp [writeMembers, ih]

/-! ### Writing keeps to the scopes -/

/-- A value is written where it goes. -/
theorem scopedAll_store {known : List Temp} {sink : Sink} {value : Made}
    (hsink : uses sink.pieces ⊆ known) (hvalue : uses value.pieces ⊆ known) :
    Code.ScopedAll known [.line (.store sink value)] :=
  Code.scopedAll_use (by simp [Statement.pieces]) (by simp [Statement.pieces, hsink, hvalue])
    trivial

/-- What has been put together in a temporary is written where it goes. -/
theorem scopedAll_whole {known : List Temp} {sink : Sink} (hsink : uses sink.pieces ⊆ known)
    (t : Temp) : Code.ScopedAll (t :: known) [.line (.store sink (.whole t))] :=
  scopedAll_store (List.Subset.trans hsink (List.subset_cons_self t known)) (by simp [Made.pieces])

/-- A container is put together in a temporary by a loop. -/
theorem scopedAll_filled {known : List Temp} {sink : Sink} (hsink : uses sink.pieces ⊆ known)
    {new : Statement} {t : Temp} (hnew : declares new.pieces = [t]) (hfree : uses new.pieces = [])
    (ht : t ∉ known) {head : LoopHead} {l : List Temp} (hhead : declares head.pieces = l)
    (hl : ∀ u ∈ l, u ∉ t :: known) (hapart : l.Nodup)
    (huses : uses head.pieces ⊆ l ++ t :: known) {body : List Code}
    (hbody : Code.ScopedAll (l ++ t :: known) body) :
    Code.ScopedAll known [.block [.line new, .loop head body, .line (.store sink (.whole t))]] := by
  refine Code.scopedAll_block.2 (Code.scopedAll_new hnew ht (by simp [hfree]) ?_)
  exact Code.scopedAll_loop hhead hl hapart huses hbody (scopedAll_whole hsink t)

/-- An array is written position by position. -/
theorem scopedAll_indexed {known : List Temp} {d : Nat} (hknown : Outer d known) {sink : Sink}
    (hsink : uses sink.pieces ⊆ known) {bound : Bound}
    (hbound : uses (bound.pieces ⟨.i, d⟩) ⊆ ⟨.i, d⟩ :: ⟨.arr, d⟩ :: known) {body : List Code}
    (hbody : Code.ScopedAll (⟨.i, d⟩ :: ⟨.arr, d⟩ :: known) body) :
    Code.ScopedAll known [.block [.line (.newArray ⟨.arr, d⟩), .loop (.count ⟨.i, d⟩ bound) body,
      .line (.store sink (.whole ⟨.arr, d⟩))]] :=
  scopedAll_filled hsink rfl rfl (hknown.notMem .arr) (l := [⟨.i, d⟩])
    (by simp [LoopHead.pieces]) (by simp [hknown.notMem]) (by simp)
    (by simpa [LoopHead.pieces] using hbound) hbody

mutual

/-- **Code that writes a value keeps to the scopes**, where what it is told to speak of is in
scope. -/
theorem scoped_writeShape {known : List Temp} {d : Nat} (hknown : Outer d known)
    {owner access : Place} {sink : Sink} (howner : uses owner.pieces ⊆ known)
    (haccess : uses access.pieces ⊆ known) (hsink : uses sink.pieces ⊆ known) (shape : Shape) :
    Code.ScopedAll known (writeShape owner access sink d shape) := by
  match shape with
  | .number typeName => exact scopedAll_store hsink (by simpa [Made.pieces] using haccess)
  | .bool => exact scopedAll_store hsink (by simpa [Made.pieces] using haccess)
  | .text => exact scopedAll_store hsink (by simpa [Made.pieces] using haccess)
  | .object =>
    refine Code.scopedAll_block.2 (Code.scopedAll_new rfl (hknown.notMem .obj) ?_ ?_)
    · simp [Statement.pieces]
    refine Code.scopedAll_use (by simp [Statement.pieces]) ?_ (scopedAll_whole hsink _)
    simpa [Statement.pieces] using List.Subset.trans haccess (List.subset_cons_self _ known)
  | .record members =>
    refine Code.scopedAll_block.2 (Code.scopedAll_new rfl (hknown.notMem .obj) ?_ ?_)
    · simp [Statement.pieces]
    refine Code.scopedAll_append.2 ⟨?_, ?_⟩
    · exact scoped_writeMembers (hknown.inner (l := [⟨.obj, d⟩]) (by simp))
        (List.Subset.trans haccess (List.subset_cons_self _ known)) (by simp [Place.pieces]) members
    · rw [bindsAll_writeMembers]
      exact scopedAll_whole hsink _
  | .staticArray e =>
    have hinto : known ⊆ ⟨.i, d⟩ :: ⟨.arr, d⟩ :: known := List.subset_append_right [_, _] known
    refine scopedAll_indexed hknown hsink
      (by simpa [Bound.pieces] using List.Subset.trans haccess hinto) ?_
    exact scoped_writeShape (hknown.inner (l := [⟨.i, d⟩, ⟨.arr, d⟩]) (by simp))
      (List.Subset.trans howner hinto)
      (by simpa [Place.pieces] using List.Subset.trans haccess hinto)
      (by simp [Sink.pieces]) e
  | .dynamicArray lengthVar e =>
    have hinto : known ⊆ ⟨.i, d⟩ :: ⟨.arr, d⟩ :: known := List.subset_append_right [_, _] known
    refine scopedAll_indexed hknown hsink
      (by simpa [Bound.pieces, Place.pieces] using List.Subset.trans howner hinto) ?_
    exact scoped_writeShape (hknown.inner (l := [⟨.i, d⟩, ⟨.arr, d⟩]) (by simp))
      (List.Subset.trans howner hinto)
      (by simpa [Place.pieces] using List.Subset.trans haccess hinto)
      (by simp [Sink.pieces]) e
  | .vector e | .set e =>
    have hinto : known ⊆ ⟨.item, d⟩ :: ⟨.arr, d⟩ :: known := List.subset_append_right [_, _] known
    refine scopedAll_filled hsink rfl rfl (hknown.notMem .arr) (l := [⟨.item, d⟩])
      (by simp [LoopHead.pieces]) (by simp [hknown.notMem]) (by simp)
      (by simpa [LoopHead.pieces, Range.pieces] using List.Subset.trans haccess hinto) ?_
    exact scoped_writeShape (hknown.inner (l := [⟨.item, d⟩, ⟨.arr, d⟩]) (by simp))
      (List.Subset.trans howner hinto) (by simp [Place.pieces]) (by simp [Sink.pieces]) e
  | .map s v =>
    have hinto : known ⊆ ⟨.key, d⟩ :: ⟨.value, d⟩ :: ⟨.map, d⟩ :: known :=
      List.subset_append_right [_, _, _] known
    refine scopedAll_filled hsink rfl rfl (hknown.notMem .map) (l := [⟨.key, d⟩, ⟨.value, d⟩])
      (by simp [LoopHead.pieces]) (by simp [hknown.notMem]) (by simp)
      (by simpa [LoopHead.pieces, Range.pieces] using List.Subset.trans haccess hinto) ?_
    exact scoped_writeShape
      (hknown.inner (l := [⟨.key, d⟩, ⟨.value, d⟩, ⟨.map, d⟩]) (by simp))
      (List.Subset.trans howner hinto) (by simp [Place.pieces])
      (by simp [Sink.pieces, Place.pieces]) v

theorem scoped_writeMembers {known : List Temp} {d : Nat} (hknown : Outer d known)
    {object receiver : Place} (hobject : uses object.pieces ⊆ known)
    (hreceiver : uses receiver.pieces ⊆ known) (ms : List (Member Shape)) :
    Code.ScopedAll known (writeMembers object receiver d ms) := by
  match ms with
  | [] => trivial
  | ⟨owner, name, key, shape⟩ :: ms =>
    refine Code.scopedAll_append.2 ⟨?_, ?_⟩
    · exact scoped_writeShape hknown (by simpa using hobject)
        (by simpa [Place.pieces] using hobject)
        (by simpa [Sink.pieces, KeyText.pieces] using hreceiver) shape
    · rw [bindsAll_writeShape]
      exact scoped_writeMembers hknown hobject hreceiver ms

end

/-! ### Reading keeps to the scopes -/

/-- A container is read under a name. -/
theorem scopedAll_viewed {known : List Temp} {value : Place} (hvalue : uses value.pieces ⊆ known)
    {view : Statement} {t : Temp} (hview : view = .viewObject t value ∨ view = .viewArray t value)
    (ht : t ∉ known) {body : List Code} (hbody : Code.ScopedAll (t :: known) body) :
    Code.ScopedAll known [.block (.line view :: body)] := by
  refine Code.scopedAll_block.2 ?_
  rcases hview with rfl | rfl
  · exact Code.scopedAll_new (by simp [Statement.pieces]) ht
      (by simpa [Statement.pieces] using hvalue) hbody
  · exact Code.scopedAll_new (by simp [Statement.pieces]) ht
      (by simpa [Statement.pieces] using hvalue) hbody

/-- A container is emptied before it is filled by a loop. -/
theorem scopedAll_emptied {known : List Temp} {t : Temp} {target : Place}
    (htarget : uses target.pieces ⊆ known) {head : LoopHead} {l : List Temp}
    (hhead : declares head.pieces = l) (hl : ∀ u ∈ l, u ∉ t :: known) (hapart : l.Nodup)
    (huses : uses head.pieces ⊆ l ++ t :: known) {body : List Code}
    (hbody : Code.ScopedAll (l ++ t :: known) body) :
    Code.ScopedAll (t :: known) [.line (.clear target), .loop head body] := by
  refine Code.scopedAll_use (by simp [Statement.pieces]) ?_
    (Code.scopedAll_loop hhead hl hapart huses hbody trivial)
  simpa [Statement.pieces] using List.Subset.trans htarget (List.subset_cons_self t known)

mutual

/-- **Code that reads a value keeps to the scopes**, where what it is told to speak of is in
scope. -/
theorem scoped_readShape {known : List Temp} {d : Nat} (hknown : Outer d known)
    {owner target value : Place} (howner : uses owner.pieces ⊆ known)
    (htarget : uses target.pieces ⊆ known) (hvalue : uses value.pieces ⊆ known) (shape : Shape) :
    Code.ScopedAll known (readShape owner target value d shape) := by
  match shape with
  | .number typeName =>
    by_cases htype : typeName = "" <;>
      exact Code.scopedAll_use (by simp [Statement.pieces, htype])
        (by simp [Statement.pieces, htype, htarget, hvalue]) trivial
  | .bool =>
    exact Code.scopedAll_use (by simp [Statement.pieces])
      (by simp [Statement.pieces, htarget, hvalue]) trivial
  | .text =>
    exact Code.scopedAll_use (by simp [Statement.pieces])
      (by simp [Statement.pieces, htarget, hvalue]) trivial
  | .object =>
    exact Code.scopedAll_use (by simp [Statement.pieces])
      (by simp [Statement.pieces, htarget, hvalue]) trivial
  | .record members =>
    refine scopedAll_viewed hvalue (.inl rfl) (hknown.notMem .obj) ?_
    exact scoped_readMembers (hknown.inner (l := [⟨.obj, d⟩]) (by simp))
      (List.Subset.trans htarget (List.subset_cons_self _ known)) (by simp [Place.pieces]) members
  | .staticArray e =>
    have hinto : known ⊆ ⟨.i, d⟩ :: ⟨.arr, d⟩ :: known := List.subset_append_right [_, _] known
    refine scopedAll_viewed hvalue (.inr rfl) (hknown.notMem .arr) ?_
    refine Code.scopedAll_loop (l := [⟨.i, d⟩]) (by simp [LoopHead.pieces])
      (by simp [hknown.notMem]) (by simp)
      (by simpa [LoopHead.pieces, Bound.pieces] using List.Subset.trans htarget hinto) ?_ trivial
    exact scoped_readShape (hknown.inner (l := [⟨.i, d⟩, ⟨.arr, d⟩]) (by simp))
      (List.Subset.trans howner hinto)
      (by simpa [Place.pieces] using List.Subset.trans htarget hinto)
      (by simp [Place.pieces]) e
  | .dynamicArray lengthVar e =>
    have harr : known ⊆ ⟨.arr, d⟩ :: known := List.subset_cons_self _ known
    have hinto : known ⊆ ⟨.i, d⟩ :: ⟨.arr, d⟩ :: known := List.subset_append_right [_, _] known
    refine scopedAll_viewed hvalue (.inr rfl) (hknown.notMem .arr) ?_
    refine Code.scopedAll_use (by simp [Statement.pieces])
      (by simpa [Statement.pieces] using List.Subset.trans htarget harr) ?_
    refine Code.scopedAll_use (by simp [Statement.pieces])
      (by simpa [Statement.pieces, Place.pieces] using List.Subset.trans howner harr) ?_
    refine Code.scopedAll_use (by simp [Statement.pieces])
      (by simpa [Statement.pieces] using List.Subset.trans htarget harr) ?_
    refine Code.scopedAll_loop (l := [⟨.i, d⟩]) (by simp [LoopHead.pieces])
      (by simp [hknown.notMem]) (by simp) (by simp [LoopHead.pieces, Bound.pieces]) ?_ trivial
    exact scoped_readShape (hknown.inner (l := [⟨.i, d⟩, ⟨.arr, d⟩]) (by simp))
      (List.Subset.trans howner hinto)
      (by simpa [Place.pieces] using List.Subset.trans htarget hinto)
      (by simp [Place.pieces]) e
  | .vector e =>
    have hinto : known ⊆ ⟨.elem, d⟩ :: ⟨.item, d⟩ :: ⟨.arr, d⟩ :: known :=
      List.subset_append_right [_, _, _] known
    refine scopedAll_viewed hvalue (.inr rfl) (hknown.notMem .arr) ?_
    refine scopedAll_emptied htarget (l := [⟨.item, d⟩]) (by simp [LoopHead.pieces])
      (by simp [hknown.notMem]) (by simp) (by simp [LoopHead.pieces, Range.pieces]) ?_
    refine Code.scopedAll_new (t := ⟨.elem, d⟩) (by simp [Statement.pieces])
      (by simp [hknown.notMem]) ?_ ?_
    · simpa [Statement.pieces] using
        List.Subset.trans htarget (List.subset_append_right [_, _] known)
    exact scoped_readShape (hknown.inner (l := [⟨.elem, d⟩, ⟨.item, d⟩, ⟨.arr, d⟩]) (by simp))
      (List.Subset.trans howner hinto) (by simp [Place.pieces]) (by simp [Place.pieces]) e
  | .set e =>
    have hinto : known ⊆ ⟨.elem, d⟩ :: ⟨.item, d⟩ :: ⟨.arr, d⟩ :: known :=
      List.subset_append_right [_, _, _] known
    refine scopedAll_viewed hvalue (.inr rfl) (hknown.notMem .arr) ?_
    refine scopedAll_emptied htarget (l := [⟨.item, d⟩]) (by simp [LoopHead.pieces])
      (by simp [hknown.notMem]) (by simp) (by simp [LoopHead.pieces, Range.pieces]) ?_
    refine Code.scopedAll_new (t := ⟨.elem, d⟩) (by simp [Statement.pieces])
      (by simp [hknown.notMem]) ?_ ?_
    · simpa [Statement.pieces] using
        List.Subset.trans htarget (List.subset_append_right [_, _] known)
    refine Code.scopedAll_append.2 ⟨?_, ?_⟩
    · exact scoped_readShape (hknown.inner (l := [⟨.elem, d⟩, ⟨.item, d⟩, ⟨.arr, d⟩]) (by simp))
        (List.Subset.trans howner hinto) (by simp [Place.pieces]) (by simp [Place.pieces]) e
    · rw [bindsAll_readShape]
      exact Code.scopedAll_use (by simp [Statement.pieces])
        (by simpa [Statement.pieces] using List.Subset.trans htarget hinto) trivial
  | .map s v =>
    have hinto : known ⊆ ⟨.elem, d⟩ :: ⟨.key, d⟩ :: ⟨.value, d⟩ :: ⟨.map, d⟩ :: known :=
      List.subset_append_right [_, _, _, _] known
    refine scopedAll_viewed hvalue (.inl rfl) (hknown.notMem .map) ?_
    refine scopedAll_emptied htarget (l := [⟨.key, d⟩, ⟨.value, d⟩]) (by simp [LoopHead.pieces])
      (by simp [hknown.notMem]) (by simp) (by simp [LoopHead.pieces, Range.pieces]) ?_
    refine Code.scopedAll_new (t := ⟨.elem, d⟩) (by simp [Statement.pieces])
      (by simp [hknown.notMem]) ?_ ?_
    · simpa [Statement.pieces] using
        List.Subset.trans htarget (List.subset_append_right [_, _, _] known)
    refine Code.scopedAll_append.2 ⟨?_, ?_⟩
    · exact scoped_readShape
        (hknown.inner (l := [⟨.elem, d⟩, ⟨.key, d⟩, ⟨.value, d⟩, ⟨.map, d⟩]) (by simp))
        (List.Subset.trans howner hinto) (by simp [Place.pieces]) (by simp [Place.pieces]) v
    · -- the entry is made of the key and of the new value
      have hkey : uses (keyPieces target s ⟨.key, d⟩) ⊆
          ⟨.elem, d⟩ :: ⟨.key, d⟩ :: ⟨.value, d⟩ :: ⟨.map, d⟩ :: known :=
        List.Subset.trans (uses_keyPieces_subset target s _)
          (List.cons_subset.2 ⟨by simp, List.Subset.trans htarget hinto⟩)
      rw [bindsAll_readShape]
      exact Code.scopedAll_use (by simp [Statement.pieces])
        (by simpa [Statement.pieces] using ⟨List.Subset.trans htarget hinto, hkey⟩) trivial

theorem scoped_readMembers {known : List Temp} {d : Nat} (hknown : Outer d known)
    {object source : Place} (hobject : uses object.pieces ⊆ known)
    (hsource : uses source.pieces ⊆ known) (ms : List (Member Shape)) :
    Code.ScopedAll known (readMembers object source d ms) := by
  match ms with
  | [] => trivial
  | ⟨owner, name, key, shape⟩ :: ms =>
    refine Code.scopedAll_append.2 ⟨?_, ?_⟩
    · exact scoped_readShape hknown (by simpa using hobject)
        (by simpa [Place.pieces] using hobject) (by simpa [Place.pieces] using hsource) shape
    · rw [bindsAll_readShape]
      exact scoped_readMembers hknown hobject hsource ms

end

/-! ### Routines -/

theorem Outer.nil : Outer 0 [] := by
  simp [Outer]

/-- All routines of a type keep to the scopes. -/
theorem scoped_routines (type : String) (ms : List (Member Shape)) :
    ∀ r ∈ routines type ms, Code.ScopedAll [] r.body := by
  have hwrite : ∀ object receiver : String,
      Code.ScopedAll [] (writeMembers (.root object) (.root receiver) 0 ms) := fun _ _ =>
    scoped_writeMembers .nil (by simp [Place.pieces]) (by simp [Place.pieces]) ms
  have hread : ∀ object source : String,
      Code.ScopedAll [] (readMembers (.root object) (.root source) 0 ms) := fun _ _ =>
    scoped_readMembers .nil (by simp [Place.pieces]) (by simp [Place.pieces]) ms
  intro r hr
  rcases body_of_mem_routines hr with hbody | hbody | hbody | hbody <;> rw [hbody]
  · exact hwrite _ _
  · exact hread _ _
  · refine Code.scopedAll_append.2 ⟨Code.scopedAll_use rfl (by simp [Statement.pieces])
      (hwrite _ _), ?_⟩
    exact Code.scopedAll_use rfl (by simp [Statement.pieces]) trivial
  · exact Code.scopedAll_use rfl (by simp [Statement.pieces]) (hread _ _)

/-- **Temporaries of generated code are in scope where they are used, and none is declared while
one of its name is in scope.**  A routine is a tree of blocks and loops whose lines are put together
from texts and names of temporaries. -/
theorem generate_scoped {g : Graph} {n : Node} {text : String} (h : generate g n = .ok text) :
    (∃ ms, plan g (flatten g n) = .ok ms ∧
      text = Writer.text (routineSteps (routines n.name ms)) ∧
      ∀ r ∈ routines n.name ms, Code.ScopedAll [] r.body) ∧
    (∀ s : Statement, s.spell = spellAll s.pieces) ∧
    (∀ head : LoopHead, head.spell = spellAll head.pieces) ∧
    ∀ t u : Temp, t.spell = u.spell → t = u := by
  refine ⟨?_, Statement.spell_eq, LoopHead.spell_eq, fun t u => Temp.spell_injective⟩
  obtain ⟨-, ms, hplan, rfl⟩ := generate_eq_ok.1 h
  exact ⟨ms, hplan, rfl, scoped_routines n.name ms⟩

/-- A plain record with a list of numbers. -/
def trail : Node :=
  ⟨"Trail", .pod, [], [⟨"heights", "", .vector ⟨"", "", .scalar .int, "int", .anyone, none⟩, "",
    .anyone, none⟩], []⟩

/-- A type with a map of lists of plain records, and with a plain record. -/
def atlas : Node :=
  ⟨"Atlas", .all, [], [⟨"pages", "", .map true ⟨"", "", .scalar .string, "", .anyone, none⟩
      ⟨"", "", .vector ⟨"", "", .pod, "Trail", .anyone, some 1⟩, "", .anyone, none⟩, "", .anyone,
      none⟩, ⟨"walk", "", .pod, "Trail", .anyone, some 1⟩], []⟩

/-- The plan of the type: containers three deep, and one in a plain record that adds no depth. -/
def atlasPlan : List (Member Shape) :=
  [⟨[], "pages", "pages", .map .string (.vector (.record
      [⟨[], "heights", "heights", .vector (.number "int")⟩]))⟩,
    ⟨["walk"], "heights", "walk.heights", .vector (.number "int")⟩]

theorem generate_scoped_atlas :
    generate ⟨[atlas, trail]⟩ atlas = .ok (routinesText "Atlas" atlasPlan) ∧
      ∀ r ∈ routines "Atlas" atlasPlan, Code.ScopedAll [] r.body := by
  have hplan : plan ⟨[atlas, trail]⟩ (flatten ⟨[atlas, trail]⟩ atlas) = .ok atlasPlan := by cbv
  have htext : generate ⟨[atlas, trail]⟩ atlas = .ok (routinesText "Atlas" atlasPlan) :=
    generate_eq_ok.2 ⟨rfl, atlasPlan, hplan, rfl⟩
  obtain ⟨⟨ms, hms, -, hscoped⟩, -⟩ := generate_scoped htext
  obtain rfl : atlasPlan = ms := Except.ok.inj (hplan.symm.trans hms)
  exact ⟨htext, hscoped⟩

end Emit
end Marshal
