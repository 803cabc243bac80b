import Marshal.Emit.Literal

/-!
# Literals and keys, read back

A literal is read from its first quote to the next one that is not part of an escape, and what is
read is the text it was made from; so different texts have different literals.

A dotted key is read up to its next dot.  What is there is a name, if names have no dots: so the
keys inside one member are never those inside another member of the same record.

## Main definitions

* `readQuoted` — reading a literal after its first quote.
* `Under` — the key of a member, or of something inside it.

## Main results

* `readQuoted_flatMap`, `literal_injective` — a literal is that of one text.
* `Under.name_unique` — a key is under one name.
-/

namespace Marshal
namespace Emit

/-! ### Reading literals -/

/-- What a letter stands for after a backslash. -/
def unescape? : Char → Option Char
  | '"' => some '"'
  | '\\' => some '\\'
  | 'n' => some '\n'
  | 't' => some '\t'
  | _ => none

/-- Read what comes after the first quote of a literal: its text, and what follows the last quote.
A literal does not go on in the next line. -/
def readQuoted : List Char → Option (List Char × List Char)
  | [] => none
  | '"' :: rest => some ([], rest)
  | '\n' :: _ => none
  | '\\' :: [] => none
  | '\\' :: c :: cs => do
      let d ← unescape? c
      let (text, rest) ← readQuoted cs
      return (d :: text, rest)
  | c :: cs => do
      let (text, rest) ← readQuoted cs
      return (c :: text, rest)

/-- A character that is written in a literal is the one that is read. -/
theorem readQuoted_literalChar (c : Char) (cs : List Char) :
    readQuoted (literalChar c ++ cs) = (readQuoted cs).map fun p => (c :: p.1, p.2) := by
  unfold literalChar
  split
  · cases h : readQuoted cs <;> simp [readQuoted, unescape?, h]
  · cases h : readQuoted cs <;> simp [readQuoted, unescape?, h]
  · cases h : readQuoted cs <;> simp [readQuoted, unescape?, h]
  · cases h : readQuoted cs <;> simp [readQuoted, unescape?, h]
  · next hquote hslash hline _ =>
    cases h : readQuoted cs <;> simp_all [readQuoted]

theorem readQuoted_flatMap (text rest : List Char) :
    readQuoted (text.flatMap literalChar ++ '"' :: rest) = some (text, rest) := by
  induction text with
  | nil => rfl
  | cons c text ih =>
    rw [List.flatMap_cons, List.append_assoc, readQuoted_literalChar, ih]
    rfl

theorem toList_literal (text : String) :
    (literal text).toList = '"' :: (text.toList.flatMap literalChar ++ ['"']) := by
  rw [literal, String.toList_ofList]
  rfl

/-- What is written for a character in a literal stays on its line. -/
theorem newline_notMem_literalChar (c : Char) : '\n' ∉ literalChar c := by
  unfold literalChar
  split
  · decide
  · decide
  · decide
  · decide
  · next hline _ => simpa using fun h => hline h.symm

/-- A literal has no line feed. -/
theorem newline_notMem_literal (text : String) : '\n' ∉ (literal text).toList := by
  rw [toList_literal]
  simp [newline_notMem_literalChar]

/-- Texts with one literal are one text. -/
theorem literal_injective {text text' : String} (h : literal text = literal text') :
    text = text' := by
  have hlists : '"' :: (text.toList.flatMap literalChar ++ ['"']) =
      '"' :: (text'.toList.flatMap literalChar ++ ['"']) := by
    rw [← toList_literal, ← toList_literal, h]
  have hread := readQuoted_flatMap text.toList []
  rw [(List.cons.inj hlists).2, readQuoted_flatMap] at hread
  exact String.toList_injective (Prod.mk.inj (Option.some.inj hread)).1.symm

/-! ### Keys -/

/-- A key is the one of a member with the key `outer`, or of something inside it. -/
def Under (outer key : String) : Prop := key = outer ∨ ∃ rest, key = outer ++ "." ++ rest

section

variable {outer name name' key : String}

theorem under_self (key : String) : Under key key := .inl rfl

theorem dotted_ne_empty (hname : name ≠ "") : dotted outer name ≠ "" := by
  rw [dotted]
  split
  · exact hname
  · intro h
    have hlength := congrArg String.length h
    rw [String.length_append, String.length_append] at hlength
    have hdot : ".".length = 1 := rfl
    rw [hdot] at hlength
    change _ = 0 at hlength
    omega

/-- What is under a name inside a member is inside that member. -/
theorem Under.inside (houter : outer ≠ "") (h : Under (dotted outer name) key) :
    Under outer key := by
  rw [dotted, if_neg houter] at h
  rcases h with rfl | ⟨rest, rfl⟩
  · exact .inr ⟨name, rfl⟩
  · refine .inr ⟨name ++ "." ++ rest, ?_⟩
    simp only [String.append_assoc]

/-- A key under a name has, after what all names there have in common, the name, and then nothing
or a dot. -/
theorem Under.toList (h : Under (dotted outer name) key) :
    ∃ tail, key.toList = (dotted outer "").toList ++ (name.toList ++ tail) ∧
      (tail = [] ∨ ∃ rest, tail = '.' :: rest) := by
  have hdotted : (dotted outer name).toList = (dotted outer "").toList ++ name.toList := by
    rw [dotted, dotted]
    split
    · rfl
    · rw [String.append_empty, String.toList_append]
  rcases h with rfl | ⟨rest, rfl⟩
  · exact ⟨[], by rw [hdotted, List.append_nil], .inl rfl⟩
  · refine ⟨'.' :: rest.toList, ?_, .inr ⟨_, rfl⟩⟩
    rw [String.toList_append, String.toList_append, hdotted, List.append_assoc, List.append_assoc]
    rfl

theorem takeWhile_name {name tail : List Char} (hname : '.' ∉ name)
    (htail : tail = [] ∨ ∃ rest, tail = '.' :: rest) :
    (name ++ tail).takeWhile (· ≠ '.') = name := by
  have hall : ∀ c ∈ name, decide (c ≠ '.') = true := by
    intro c hc
    apply decide_eq_true
    rintro rfl
    exact hname hc
  rw [List.takeWhile_append_of_pos hall]
  rcases htail with rfl | ⟨rest, rfl⟩
  · rw [List.takeWhile_nil, List.append_nil]
  · rw [List.takeWhile_cons_of_neg (by decide), List.append_nil]

/-- A key is under one name of a record. -/
theorem Under.name_unique (hname : '.' ∉ name.toList) (hname' : '.' ∉ name'.toList)
    (h : Under (dotted outer name) key) (h' : Under (dotted outer name') key) : name = name' := by
  obtain ⟨tail, hkey, htail⟩ := h.toList
  obtain ⟨tail', hkey', htail'⟩ := h'.toList
  have hnames : name.toList ++ tail = name'.toList ++ tail' :=
    List.append_cancel_left (hkey.symm.trans hkey')
  apply String.toList_injective
  calc name.toList
    _ = (name.toList ++ tail).takeWhile (· ≠ '.') := (takeWhile_name hname htail).symm
    _ = (name'.toList ++ tail').takeWhile (· ≠ '.') := by rw [hnames]
    _ = name'.toList := takeWhile_name hname' htail'

end

end Emit
end Marshal
