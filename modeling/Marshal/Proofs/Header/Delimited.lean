import Marshal.Proofs.Emit.Literals
import Marshal.Proofs.Header.Bytes
import Marshal.Proofs.Header.Copied

/-!
# Where a literal ends

Three readers must agree on where a literal ends: the compiler that reads its text back, whoever
looks for a quote without a backslash that escapes it, and the scanner, which goes through bytes
and skips one after each backslash.  What is written for a character is passed over whole by each
of them, and leaves them where they were, inside the literal.

## Main definitions

* `readLiteral` — reading a literal from its first to its last quote.
* `Escaped` — what stands before an escaped character.

## Main results

* `escaped_iff` — the quotes of a literal that are not escaped are its first and its last character.
* `stays_literalChar` — the scanner stays inside the literal.
* `literal_delimited` — a literal is read back, and ends for the scanner where it ends.
-/

namespace Marshal
namespace Header

open Emit

/-! ### Reading a whole literal -/

/-- Read a literal that nothing follows. -/
def readLiteral : List Char → Option (List Char)
  | '"' :: cs =>
      match readQuoted cs with
      | some (text, []) => some text
      | _ => none
  | _ => none

theorem readLiteral_literal (text : String) :
    readLiteral (literal text).toList = some text.toList := by
  rw [toList_literal, readLiteral, readQuoted_flatMap]

/-! ### Quotes that are not escaped -/

/-- A character is escaped if an odd number of backslashes stands right before it. -/
def Escaped (before : List Char) : Prop :=
  (before.reverse.takeWhile (· = '\\')).length % 2 = 1

instance (before : List Char) : Decidable (Escaped before) := Nat.decEq _ _

theorem not_escaped_nil : ¬ Escaped [] := by
  decide

/-- The last character before another one escapes it if it is a backslash that is not escaped
itself. -/
theorem escaped_concat (before : List Char) (c : Char) :
    Escaped (before ++ [c]) ↔ c = '\\' ∧ ¬ Escaped before := by
  unfold Escaped
  rw [List.reverse_append, List.reverse_singleton, List.singleton_append, List.takeWhile_cons]
  by_cases hc : c = '\\'
  · simp only [hc, decide_true, if_true, List.length_cons, true_and]
    omega
  · simp [hc]

/-- What is written for a character leaves what follows it unescaped. -/
theorem not_escaped_append_literalChar {before : List Char} (h : ¬ Escaped before) (c : Char) :
    ¬ Escaped (before ++ literalChar c) := by
  have hpair : ∀ d, ¬ Escaped (before ++ ['\\', d]) := by
    intro d
    rw [← List.singleton_append, ← List.append_assoc, escaped_concat, escaped_concat]
    rintro ⟨-, hslash⟩
    exact hslash ⟨rfl, h⟩
  unfold literalChar
  split
  · exact hpair '"'
  · exact hpair '\\'
  · exact hpair 'n'
  · exact hpair 't'
  · next hslash _ _ =>
    rw [escaped_concat]
    rintro ⟨hc, -⟩
    exact hslash hc

/-- A quote is only ever written after the backslash that escapes it, at the end of what is written
for a character. -/
theorem quote_of_literalChar {c : Char} {before after : List Char}
    (h : literalChar c = before ++ '"' :: after) : before = ['\\'] ∧ after = [] := by
  -- of what is written for a quote only the second character is one, and nothing else has any
  have hpair : ∀ d, ['\\', d] = before ++ '"' :: after → before = ['\\'] ∧ after = [] := by
    intro d hd
    rcases before with _ | ⟨x, _ | ⟨y, before⟩⟩
    · cases hd
    · obtain ⟨rfl, hrest⟩ := List.cons.inj hd
      obtain ⟨-, hafter⟩ := List.cons.inj hrest
      exact ⟨rfl, hafter.symm⟩
    · simp at hd
  unfold literalChar at h
  split at h
  · exact hpair '"' h
  · exact hpair '\\' h
  · exact hpair 'n' h
  · exact hpair 't' h
  · next hquote _ _ _ =>
    have hmem : '"' ∈ [c] := by
      rw [h]
      exact List.mem_append_right _ List.mem_cons_self
    exact absurd (List.mem_singleton.1 hmem).symm hquote

/-- Inside a literal all quotes are escaped, but for the one at the end. -/
theorem escaped_iff_of_flatMap {outer : List Char} (houter : ¬ Escaped outer)
    {text before after : List Char}
    (h : text.flatMap literalChar ++ ['"'] = before ++ '"' :: after) :
    Escaped (outer ++ before) ↔ after ≠ [] := by
  induction text generalizing outer before with
  | nil =>
    rcases before with _ | ⟨x, before⟩
    · obtain rfl := (List.cons.inj h).2
      rw [List.append_nil]
      exact iff_of_false houter (not_not_intro rfl)
    · simp at h
  | cons c text ih =>
    rw [List.flatMap_cons, List.append_assoc, List.append_eq_append_iff] at h
    rcases h with ⟨more, rfl, hrest⟩ | ⟨more, hchar, hrest⟩
    · rw [← List.append_assoc]
      exact ih (not_escaped_append_literalChar houter c) hrest
    rcases more with _ | ⟨x, more⟩
    · rw [List.append_nil] at hchar
      have hnext : Escaped (outer ++ literalChar c ++ []) ↔ after ≠ [] :=
        ih (not_escaped_append_literalChar houter c) hrest.symm
      rwa [List.append_nil, hchar] at hnext
    · obtain ⟨rfl, rfl⟩ := List.cons.inj hrest
      obtain ⟨rfl, rfl⟩ := quote_of_literalChar hchar
      refine iff_of_true ((escaped_concat outer _).2 ⟨rfl, houter⟩) ?_
      simp

/-- **The quotes that are not escaped** are the first and the last character of a literal. -/
theorem escaped_iff {text : String} {before after : List Char}
    (h : (literal text).toList = before ++ '"' :: after) :
    Escaped before ↔ before ≠ [] ∧ after ≠ [] := by
  rw [toList_literal] at h
  rcases before with _ | ⟨x, before⟩
  · exact iff_of_false not_escaped_nil (fun hne => hne.1 rfl)
  · obtain ⟨rfl, hinside⟩ := List.cons.inj h
    have hquote : ¬ Escaped ['"'] := by
      decide
    rw [← List.singleton_append, escaped_iff_of_flatMap hquote hinside]
    simp

/-! ### What the scanner passes over -/

/-- **The scanner stays inside the literal** at what is written for a character. -/
theorem stays_literalChar (c : Char) : Stays (.quoted '"') (utf8 (literalChar c)) := by
  have hpair : ∀ d, Stays (.quoted '"') ['\\'.toUInt8, d] := stays_skip fun _ => rfl
  unfold literalChar
  split
  · exact hpair '"'.toUInt8
  · exact hpair '\\'.toUInt8
  · exact hpair 'n'.toUInt8
  · exact hpair 't'.toUInt8
  · next hquote hslash _ _ =>
    obtain ⟨b, ws, hbytes, hws, -⟩ := exists_encode c
    have hreached : (Scan.quoted '"').Reached := Or.inl rfl
    have hstay : Stays (.quoted '"') [b] := by
      refine stays_onward fun next => ?_
      rw [glance_quoted (by decide) hslash hbytes next, if_neg hquote]
    rw [utf8_cons, utf8_nil, List.append_nil, hbytes]
    exact hstay.append (stays_of_wide hreached hws)

theorem stays_flatMap {s : Scan} (cs : List Char) {f : Char → List Char}
    (h : ∀ c, Stays s (utf8 (f c))) : Stays s (utf8 (cs.flatMap f)) := by
  induction cs with
  | nil => exact stays_nil s
  | cons c cs ih =>
    rw [List.flatMap_cons, utf8_append]
    exact (h c).append ih

/-- The rounds on a literal: in code before its first byte, inside the literal up to its last, and
in code again after it. -/
theorem rounds_literal (text : String) (rest : List UInt8) :
    ∃ inside, rounds .code (bytes (literal text) ++ rest) =
        (.code, bytes (literal text) ++ rest) :: inside ++ rounds .code rest ∧
      ∀ r ∈ inside, r.1 = .quoted '"' := by
  have hbytes : bytes (literal text) ++ rest =
      '"'.toUInt8 :: (utf8 (text.toList.flatMap literalChar) ++ '"'.toUInt8 :: rest) := by
    rw [bytes_eq, toList_literal, utf8_cons, utf8_append, List.append_assoc, List.append_assoc]
    rfl
  obtain ⟨inside, hinside, hin⟩ :=
    stays_flatMap text.toList stays_literalChar ('"'.toUInt8 :: rest)
  have hclose : rounds (.quoted '"') ('"'.toUInt8 :: rest) =
      (.quoted '"', '"'.toUInt8 :: rest) :: rounds .code rest := rounds_onward rfl
  refine ⟨inside ++ [(.quoted '"', '"'.toUInt8 :: rest)], ?_, ?_⟩
  · rw [hbytes, rounds_onward (t := .quoted '"') rfl, hinside, hclose]
    simp
  · rw [List.forall_mem_append, List.forall_mem_singleton]
    exact ⟨hin, rfl⟩

/-- **A literal is delimited by its quotes.**  It is read back as the text it was made from, has no
line feed, and its quotes that are not escaped are its first and its last character.  The scanner
copies it, and its rounds through the bytes are in code before it, inside one literal all along it,
and in code again right after it, whatever follows. -/
theorem literal_delimited (text : String) :
    readLiteral (literal text).toList = some text.toList ∧
    '\n' ∉ (literal text).toList ∧
    (∀ before after, (literal text).toList = before ++ '"' :: after →
      (Escaped before ↔ before ≠ [] ∧ after ≠ [])) ∧
    (∀ rest, closeLine .code ((literal text).toList ++ rest) =
      ((literal text).toList ++ (closeLine .code rest).1, (closeLine .code rest).2)) ∧
    ∀ rest, ∃ inside, rounds .code (bytes (literal text) ++ rest) =
        (.code, bytes (literal text) ++ rest) :: inside ++ rounds .code rest ∧
      ∀ r ∈ inside, r.1 = .quoted '"' :=
  ⟨readLiteral_literal text, newline_notMem_literal text, fun _ _ h => escaped_iff h,
    copies_literal text, rounds_literal text⟩

end Header
end Marshal
