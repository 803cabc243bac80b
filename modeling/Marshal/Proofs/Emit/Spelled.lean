import Marshal.Proofs.Emit.Literals
import Marshal.Proofs.Emit.Scopes
import Marshal.Proofs.Emit.Spellings

/-!
# What lines have from the texts in them

A line of code is put together from texts of its own, keys in literals, names of temporaries, and
spellings that it takes over.  A property that passes to texts from the parts that they are put
together from, and that the first three have, is one of all lines as soon as the spellings have it.

## Main definitions

* `PlainSpelling` — a spelling that is neither a literal nor a comment.
* `Compositional` — a property that texts have from their parts.
* `AllPieces`, `Code.AllLines` — what all lines of code have.

## Main results

* `allLines_writeShape`, `allLines_readShape` — code for a shape has what its spellings have.
-/

namespace Marshal
namespace Emit

open Schema

/-! ### Properties of texts -/

/-- A character that is no quote, slash, backslash or line feed. -/
def isPlain (c : Char) : Bool := c != '"' && c != '\'' && c != '/' && c != '\\' && c != '\n'

/-- A spelling without quotes, slashes, backslashes and line feeds. -/
def PlainSpelling (s : String) : Prop := ∀ c ∈ s.toList, isPlain c

instance (s : String) : Decidable (PlainSpelling s) :=
  decidable_of_iff (s.toList.all isPlain = true) List.all_eq_true

/-- The name of a temporary is plain. -/
theorem plainSpelling_spell (t : Temp) : PlainSpelling t.spell := by
  have hrole : PlainSpelling t.role.spell := by
    cases t.role <;> decide
  intro c hc
  rw [toList_spell, List.mem_append, List.mem_cons] at hc
  rcases hc with hc | rfl | hc
  · exact hrole c hc
  · decide
  · have hdigit := Nat.isDigit_of_mem_toDigits (by decide) (by decide) hc
    simp only [isPlain, Bool.and_eq_true, bne_iff_ne, and_assoc]
    refine ⟨?_, ?_, ?_, ?_, ?_⟩ <;> rintro rfl <;> exact absurd hdigit (by decide)

/-- A property that texts have from the parts that they are put together from.  Code has some texts
of its own that are not plain. -/
class Compositional (P : String → Prop) : Prop where
  append {s s' : String} : P s → P s' → P (s ++ s')
  plain {s : String} : PlainSpelling s → P s
  literal (text : String) : P (literal text)
  formatCall : P "std::format(\"\x7b\x7d\", "
  truthValues : P " ? \"true\" : \"false\")"
  isTrue : P " == \"true\""
  division : P ") / sizeof("

/-- A property that all pieces of a line have. -/
def AllPieces (P : String → Prop) (ps : List Piece) : Prop := ∀ p ∈ ps, P p.spell

section

variable {P : String → Prop} [Compositional P]

theorem AllPieces.spellAll {ps : List Piece} (h : AllPieces P ps) : P (spellAll ps) := by
  induction ps with
  | nil => exact Compositional.plain (by decide)
  | cons p ps ih =>
    obtain ⟨hp, hps⟩ := List.forall_mem_cons.1 h
    rw [spellAll_cons]
    exact Compositional.append hp (ih hps)

/-! ### Lines -/

section

variable {ps qs : List Piece} {s : String} {t : Temp} {p : Place}

omit [Compositional P] in
@[simp] theorem allPieces_nil : AllPieces P [] := by
  simp [AllPieces]

omit [Compositional P] in
@[simp] theorem allPieces_append :
    AllPieces P (ps ++ qs) ↔ AllPieces P ps ∧ AllPieces P qs :=
  List.forall_mem_append

omit [Compositional P] in
@[simp] theorem allPieces_text : AllPieces P (.text s :: ps) ↔ P s ∧ AllPieces P ps :=
  List.forall_mem_cons

theorem property_spell (t : Temp) : P t.spell := Compositional.plain (plainSpelling_spell t)

@[simp] theorem allPieces_new : AllPieces P (.new t :: ps) ↔ AllPieces P ps := by
  simp [AllPieces, Piece.spell, property_spell]

@[simp] theorem allPieces_use : AllPieces P (.use t :: ps) ↔ AllPieces P ps := by
  simp [AllPieces, Piece.spell, property_spell]

omit [Compositional P] in
@[simp] theorem allPieces_root {name : String} :
    AllPieces P (Place.root name).pieces ↔ P name := by
  simp [Place.pieces]

@[simp] theorem allPieces_temp (t : Temp) : AllPieces P (Place.temp t).pieces := by
  simp [Place.pieces]

@[simp] theorem allPieces_member {name : String} :
    AllPieces P (Place.member p name).pieces ↔ AllPieces P p.pieces ∧ P name := by
  simp (disch := decide) [Place.pieces, Compositional.plain]

@[simp] theorem allPieces_index (i : Temp) :
    AllPieces P (Place.index p i).pieces ↔ AllPieces P p.pieces := by
  simp (disch := decide) [Place.pieces, Compositional.plain]

@[simp] theorem allPieces_entry (key : String) :
    AllPieces P (Place.entry p key).pieces ↔ AllPieces P p.pieces := by
  simp (disch := decide) [Place.pieces, Compositional.plain, Compositional.literal]

@[simp] theorem allPieces_item (arr i : Temp) : AllPieces P (Place.item arr i).pieces := by
  simp (disch := decide) [Place.pieces, Compositional.plain]

@[simp] theorem allPieces_typePieces : AllPieces P (typePieces p) ↔ AllPieces P p.pieces := by
  simp (disch := decide) [typePieces, Compositional.plain]

@[simp] theorem allPieces_countPieces (arr : Temp) : AllPieces P (countPieces arr) := by
  simp (disch := decide) [countPieces, Compositional.plain]

@[simp] theorem allPieces_key (key : KeyText) : AllPieces P key.pieces := by
  cases key with
  | literal key => simp [KeyText.pieces, Compositional.literal]
  | ofTemp s t =>
    cases s <;> simp (disch := decide) [KeyText.pieces, Compositional.plain,
      Compositional.formatCall, Compositional.truthValues]

theorem allPieces_keyPieces (h : AllPieces P p.pieces) (s : Scalar) (key : Temp) :
    AllPieces P (keyPieces p s key) := by
  cases s <;> simp (disch := decide) [keyPieces, Compositional.plain, Compositional.isTrue, h]

theorem allPieces_follow (h : AllPieces P p.pieces) {names : List String}
    (hnames : ∀ name ∈ names, P name) : AllPieces P (p.follow names).pieces := by
  induction names generalizing p with
  | nil => exact h
  | cons name names ih =>
    obtain ⟨hname, hnames⟩ := List.forall_mem_cons.1 hnames
    exact ih (allPieces_member.2 ⟨h, hname⟩) hnames

@[simp] theorem allPieces_sinkItem (arr : Temp) : AllPieces P (Sink.item arr).pieces := by
  simp (disch := decide) [Sink.pieces, Compositional.plain]

@[simp] theorem allPieces_sinkMember (key : KeyText) :
    AllPieces P (Sink.member p key).pieces ↔ AllPieces P p.pieces := by
  simp (disch := decide) [Sink.pieces, Compositional.plain]

end

/-! ### Code -/

namespace Code

mutual

/-- A property that all lines of a piece of code have from their pieces. -/
def LinesHave (P : String → Prop) : Code → Prop
  | .line s => AllPieces P s.pieces
  | .block body => AllLines P body
  | .loop head body => AllPieces P head.pieces ∧ AllLines P body

/-- A property that all lines of pieces of code have. -/
def AllLines (P : String → Prop) : List Code → Prop
  | [] => True
  | c :: cs => LinesHave P c ∧ AllLines P cs

end

section

variable {cs cs' : List Code}

omit [Compositional P] in
@[simp] theorem allLines_nil : AllLines P [] := trivial

omit [Compositional P] in
@[simp] theorem allLines_line {s : Statement} :
    AllLines P (.line s :: cs) ↔ AllPieces P s.pieces ∧ AllLines P cs := by
  simp [AllLines, LinesHave]

omit [Compositional P] in
@[simp] theorem allLines_block {body : List Code} :
    AllLines P (.block body :: cs) ↔ AllLines P body ∧ AllLines P cs := by
  simp [AllLines, LinesHave]

omit [Compositional P] in
@[simp] theorem allLines_loop {head : LoopHead} {body : List Code} :
    AllLines P (.loop head body :: cs) ↔
      (AllPieces P head.pieces ∧ AllLines P body) ∧ AllLines P cs := by
  simp [AllLines, LinesHave]

omit [Compositional P] in
@[simp] theorem allLines_append : AllLines P (cs ++ cs') ↔ AllLines P cs ∧ AllLines P cs' := by
  induction cs with
  | nil => simp
  | cons c cs ih => simp [AllLines, ih, and_assoc]

end

end Code

/-! ### Code for shapes -/

mutual

/-- **Code that writes a value has what it takes over has.** -/
theorem allLines_writeShape {owner access : Place} {sink : Sink}
    (howner : AllPieces P owner.pieces) (haccess : AllPieces P access.pieces)
    (hsink : AllPieces P sink.pieces) (d : Nat) (shape : Shape)
    (hshape : ∀ s ∈ shape.spellings, P s) :
    Code.AllLines P (writeShape owner access sink d shape) := by
  match shape with
  | .number _ | .bool | .text | .object =>
    simp (disch := decide) [writeShape, Statement.pieces, Made.pieces, Compositional.plain, haccess,
      hsink]
  | .record members =>
    have hmembers := allLines_writeMembers haccess (allPieces_temp ⟨.obj, d⟩) (d + 1) members hshape
    simp (disch := decide) [writeShape, Statement.pieces, Made.pieces, Compositional.plain, hsink,
      hmembers]
  | .staticArray e =>
    have he := allLines_writeShape howner ((allPieces_index ⟨.i, d⟩).2 haccess)
      (allPieces_sinkItem ⟨.arr, d⟩) (d + 1) e hshape
    simp (disch := decide) [writeShape, Statement.pieces, LoopHead.pieces, Bound.pieces,
      Made.pieces, Compositional.plain, Compositional.division, haccess, hsink, he]
  | .dynamicArray lengthVar e =>
    obtain ⟨hlength, hshape⟩ := List.forall_mem_cons.1 hshape
    have he := allLines_writeShape howner ((allPieces_index ⟨.i, d⟩).2 haccess)
      (allPieces_sinkItem ⟨.arr, d⟩) (d + 1) e hshape
    simp (disch := decide) [writeShape, Statement.pieces, LoopHead.pieces, Bound.pieces,
      Made.pieces, Compositional.plain, howner, hlength, hsink, he]
  | .vector e | .set e =>
    have he := allLines_writeShape howner (allPieces_temp ⟨.item, d⟩)
      (allPieces_sinkItem ⟨.arr, d⟩) (d + 1) e hshape
    simp (disch := decide) [writeShape, Statement.pieces, LoopHead.pieces, Range.pieces,
      Made.pieces, Compositional.plain, haccess, hsink, he]
  | .map s v =>
    have hentry : AllPieces P (Sink.member (.temp ⟨.map, d⟩) (.ofTemp s ⟨.key, d⟩)).pieces :=
      (allPieces_sinkMember _).2 (allPieces_temp ⟨.map, d⟩)
    have hv := allLines_writeShape howner (allPieces_temp ⟨.value, d⟩) hentry (d + 1) v hshape
    simp (disch := decide) [writeShape, Statement.pieces, LoopHead.pieces, Range.pieces,
      Made.pieces, Compositional.plain, haccess, hsink, hv]

theorem allLines_writeMembers {object receiver : Place} (hobject : AllPieces P object.pieces)
    (hreceiver : AllPieces P receiver.pieces) (d : Nat) (ms : List (Member Shape))
    (hms : ∀ s ∈ memberSpellings ms, P s) :
    Code.AllLines P (writeMembers object receiver d ms) := by
  match ms with
  | [] => trivial
  | ⟨owner, name, key, shape⟩ :: ms =>
    simp only [memberSpellings, List.forall_mem_append, List.forall_mem_cons] at hms
    obtain ⟨⟨howner, hname, hshape⟩, hms⟩ := hms
    have hrecord := allPieces_follow hobject howner
    exact Code.allLines_append.2
      ⟨allLines_writeShape hrecord (allPieces_member.2 ⟨hrecord, hname⟩)
          ((allPieces_sinkMember _).2 hreceiver) d shape hshape,
        allLines_writeMembers hobject hreceiver d ms hms⟩

end

mutual

/-- **Code that reads a value has what it takes over has.** -/
theorem allLines_readShape {owner target value : Place} (howner : AllPieces P owner.pieces)
    (htarget : AllPieces P target.pieces) (hvalue : AllPieces P value.pieces) (d : Nat)
    (shape : Shape) (hshape : ∀ s ∈ shape.spellings, P s) :
    Code.AllLines P (readShape owner target value d shape) := by
  match shape with
  | .number typeName =>
    have htype := hshape typeName List.mem_cons_self
    by_cases h : typeName = "" <;>
      simp (disch := decide) [readShape, Statement.pieces, h, Compositional.plain, htarget, hvalue,
        htype]
  | .bool | .text | .object =>
    simp (disch := decide) [readShape, Statement.pieces, Compositional.plain, htarget, hvalue]
  | .record members =>
    have hmembers := allLines_readMembers htarget (allPieces_temp ⟨.obj, d⟩) (d + 1) members hshape
    simp (disch := decide) [readShape, Statement.pieces, Compositional.plain, hvalue, hmembers]
  | .staticArray e =>
    have he := allLines_readShape howner ((allPieces_index ⟨.i, d⟩).2 htarget)
      (allPieces_item ⟨.arr, d⟩ ⟨.i, d⟩) (d + 1) e hshape
    simp (disch := decide) [readShape, Statement.pieces, LoopHead.pieces, Bound.pieces,
      Compositional.plain, Compositional.division, htarget, hvalue, he]
  | .dynamicArray lengthVar e =>
    obtain ⟨hlength, hshape⟩ := List.forall_mem_cons.1 hshape
    have he := allLines_readShape howner ((allPieces_index ⟨.i, d⟩).2 htarget)
      (allPieces_item ⟨.arr, d⟩ ⟨.i, d⟩) (d + 1) e hshape
    simp (disch := decide) [readShape, Statement.pieces, LoopHead.pieces, Bound.pieces,
      Compositional.plain, howner, hlength, htarget, hvalue, he]
  | .vector e | .set e =>
    have he := allLines_readShape howner (allPieces_temp ⟨.elem, d⟩) (allPieces_temp ⟨.item, d⟩)
      (d + 1) e hshape
    simp (disch := decide) [readShape, Statement.pieces, LoopHead.pieces, Range.pieces,
      Compositional.plain, htarget, hvalue, he]
  | .map s v =>
    have hkey := allPieces_keyPieces htarget s ⟨.key, d⟩
    have hv := allLines_readShape howner (allPieces_temp ⟨.elem, d⟩) (allPieces_temp ⟨.value, d⟩)
      (d + 1) v hshape
    simp (disch := decide) [readShape, Statement.pieces, LoopHead.pieces, Range.pieces,
      Compositional.plain, htarget, hvalue, hkey, hv]

theorem allLines_readMembers {object source : Place} (hobject : AllPieces P object.pieces)
    (hsource : AllPieces P source.pieces) (d : Nat) (ms : List (Member Shape))
    (hms : ∀ s ∈ memberSpellings ms, P s) :
    Code.AllLines P (readMembers object source d ms) := by
  match ms with
  | [] => trivial
  | ⟨owner, name, key, shape⟩ :: ms =>
    simp only [memberSpellings, List.forall_mem_append, List.forall_mem_cons] at hms
    obtain ⟨⟨howner, hname, hshape⟩, hms⟩ := hms
    have hrecord := allPieces_follow hobject howner
    exact Code.allLines_append.2
      ⟨allLines_readShape hrecord (allPieces_member.2 ⟨hrecord, hname⟩)
          ((allPieces_entry key).2 hsource) d shape hshape,
        allLines_readMembers hobject hsource d ms hms⟩

end

end

end Emit
end Marshal
