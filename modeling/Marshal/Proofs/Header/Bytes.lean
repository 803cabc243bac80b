import Marshal.Header.Continuation
import Mathlib.Data.List.Basic

/-!
# The scanner, byte by byte

A line can be scanned through the bytes of its UTF-8 encoding.  In each round one byte is looked
at, and sometimes the one after it; after a backslash in a literal the next byte is skipped,
whatever it is, even where it is only the first of several that encode one character.  That does no
harm: all bytes of a character beyond ASCII are greater than those of the characters that the
scanner looks for, so those that are left of it are passed over.

So the rounds come to the same end as the scan of the characters.

## Main definitions

* `utf8`, `bytes` — encodings.
* `Glance`, `glance` — one round.
* `rounds` — all rounds, with the state and the bytes left at the start of each.
* `Stays` — bytes during which the scanner stays in one state.

## Main results

* `stays_of_wide` — bytes beyond ASCII change nothing.
* `makes_closeLine` — the rounds end where the scan of the characters does.
-/

namespace Marshal
namespace Header

/-! ### Encodings -/

/-- The bytes that encode characters. -/
def utf8 (cs : List Char) : List UInt8 := cs.flatMap String.utf8EncodeChar

/-- The bytes that encode a text. -/
def bytes (s : String) : List UInt8 := s.toUTF8.data.toList

theorem bytes_eq (s : String) : bytes s = utf8 s.toList := by
  conv => lhs; rw [← String.ofList_toList (s := s)]
  rw [bytes, String.toUTF8_eq_toByteArray, String.toByteArray_ofList, List.utf8Encode,
    List.data_toByteArray, List.toList_toArray, utf8]

@[simp] theorem utf8_nil : utf8 [] = [] := rfl

theorem utf8_cons (c : Char) (cs : List Char) :
    utf8 (c :: cs) = String.utf8EncodeChar c ++ utf8 cs := rfl

theorem utf8_append (cs ds : List Char) : utf8 (cs ++ ds) = utf8 cs ++ utf8 ds :=
  List.flatMap_append

/-- A byte that is no character of ASCII. -/
def Wide (b : UInt8) : Prop := 128 ≤ b.toNat

/-- A character of ASCII. -/
def IsAscii (c : Char) : Prop := c.toNat < 128

instance (c : Char) : Decidable (IsAscii c) := Nat.decLt _ _

theorem encode_ascii {c : Char} (h : IsAscii c) : String.utf8EncodeChar c = [c.toUInt8] := by
  have hle : c.val.toNat ≤ 127 := Nat.le_of_lt_succ h
  rw [String.utf8EncodeChar, if_pos hle]
  rfl

/-- The bytes of a character beyond ASCII are beyond it, too. -/
theorem wide_of_mem_encode {c : Char} (h : ¬ IsAscii c) :
    ∀ b ∈ String.utf8EncodeChar c, Wide b := by
  have hlt : ¬ c.val.toNat ≤ 127 := fun hle => h (Nat.lt_succ_of_le hle)
  intro b hb
  simp only [String.utf8EncodeChar, if_neg hlt] at hb
  unfold Wide
  split at hb
  · simp only [List.mem_cons, List.not_mem_nil, or_false] at hb
    rcases hb with rfl | rfl <;> simp only [UInt8.toNat_ofNat'] <;> omega
  split at hb
  · simp only [List.mem_cons, List.not_mem_nil, or_false] at hb
    rcases hb with rfl | rfl | rfl <;> simp only [UInt8.toNat_ofNat'] <;> omega
  · simp only [List.mem_cons, List.not_mem_nil, or_false] at hb
    rcases hb with rfl | rfl | rfl | rfl <;> simp only [UInt8.toNat_ofNat'] <;> omega

theorem toUInt8_inj {c x : Char} (hc : IsAscii c) (hx : IsAscii x) (h : c.toUInt8 = x.toUInt8) :
    c = x := by
  unfold IsAscii at hc hx
  have hbytes := congrArg UInt8.toNat h
  simp only [Char.toUInt8, UInt32.toNat_toUInt8] at hbytes
  apply Char.toNat_inj.1
  unfold Char.toNat at *
  omega

theorem not_wide_toUInt8 {x : Char} (hx : IsAscii x) : ¬ Wide x.toUInt8 := by
  unfold IsAscii at hx
  simp only [Wide, Char.toUInt8, UInt32.toNat_toUInt8]
  unfold Char.toNat at hx
  omega

/-- A character is encoded by a first byte, which is that of a character of ASCII only if it is the
one, and bytes beyond ASCII. -/
theorem exists_encode (c : Char) :
    ∃ b ws, String.utf8EncodeChar c = b :: ws ∧ (∀ w ∈ ws, Wide w) ∧
      ∀ x, IsAscii x → (b = x.toUInt8 ↔ c = x) := by
  by_cases hc : IsAscii c
  · refine ⟨c.toUInt8, [], encode_ascii hc, by simp, fun x hx => ⟨toUInt8_inj hc hx, ?_⟩⟩
    rintro rfl
    rfl
  · have hwide := wide_of_mem_encode hc
    cases hbytes : String.utf8EncodeChar c with
    | nil => exact absurd hbytes String.utf8EncodeChar_ne_nil
    | cons b ws =>
      rw [hbytes, List.forall_mem_cons] at hwide
      refine ⟨b, ws, rfl, hwide.2, fun x hx => ⟨?_, ?_⟩⟩
      · rintro rfl
        exact absurd hwide.1 (not_wide_toUInt8 hx)
      · rintro rfl
        exact absurd hx hc

/-- The first byte tells whether the first character is some character of ASCII. -/
theorem head?_utf8 {x : Char} (hx : IsAscii x) (cs : List Char) :
    (utf8 cs).head? = some x.toUInt8 ↔ cs.head? = some x := by
  cases cs with
  | nil => simp
  | cons c cs =>
    obtain ⟨b, ws, hbytes, -, hfirst⟩ := exists_encode c
    rw [utf8_cons, hbytes, List.cons_append, List.head?_cons, List.head?_cons, Option.some_inj,
      Option.some_inj]
    exact hfirst x hx

/-! ### Rounds -/

/-- What comes of looking at a byte. -/
inductive Glance where
  /-- The scan goes on in some state, with the next byte or the one after it. -/
  | onward (state : Scan) (skips : Bool)
  /-- A comment up to the end of the line begins. -/
  | lineComment
  deriving DecidableEq, Repr, Inhabited

/-- Look at a byte, and at the one after it if there is one. -/
def glance (s : Scan) (b : UInt8) (next : Option UInt8) : Glance :=
  match s with
  | .comment =>
      if b = '*'.toUInt8 ∧ next = some '/'.toUInt8 then .onward .code true
      else .onward .comment false
  | .quoted q =>
      if b = '\\'.toUInt8 then .onward (.quoted q) true
      else if b = q.toUInt8 then .onward .code false
      else .onward (.quoted q) false
  | .code =>
      if b = '"'.toUInt8 then .onward (.quoted '"') false
      else if b = '\''.toUInt8 then .onward (.quoted '\'') false
      else if b = '/'.toUInt8 ∧ next = some '*'.toUInt8 then .onward .comment true
      else if b = '/'.toUInt8 ∧ next = some '/'.toUInt8 then .lineComment
      else .onward .code false

/-- The state and the bytes that are left, at the start of each round and at the end. -/
def rounds (s : Scan) : List UInt8 → List (Scan × List UInt8)
  | [] => [(s, [])]
  | b :: bs =>
      (s, b :: bs) ::
        match glance s b bs.head? with
        | .onward t skips => rounds t (if skips then bs.tail else bs)
        | .lineComment => []
termination_by bs => bs.length
decreasing_by
  split
  · rw [List.length_tail, List.length_cons]
    omega
  · exact Nat.lt_succ_self _

section

variable {s t : Scan} {b : UInt8} {bs : List UInt8}

theorem rounds_nil (s : Scan) : rounds s [] = [(s, [])] := by
  rw [rounds]

theorem rounds_onward (h : glance s b bs.head? = .onward t false) :
    rounds s (b :: bs) = (s, b :: bs) :: rounds t bs := by
  rw [rounds, h]
  rfl

theorem rounds_skip (h : glance s b bs.head? = .onward t true) :
    rounds s (b :: bs) = (s, b :: bs) :: rounds t bs.tail := by
  rw [rounds, h]
  rfl

theorem rounds_lineComment (h : glance s b bs.head? = .lineComment) :
    rounds s (b :: bs) = [(s, b :: bs)] := by
  rw [rounds, h]

theorem rounds_ne_nil (s : Scan) (bs : List UInt8) : rounds s bs ≠ [] := by
  cases bs <;> rw [rounds] <;> exact List.cons_ne_nil _ _

theorem getLast?_onward (h : glance s b bs.head? = .onward t false) :
    (rounds s (b :: bs)).getLast? = (rounds t bs).getLast? := by
  rw [rounds_onward h, List.getLast?_cons_of_ne_nil (rounds_ne_nil t bs)]

theorem getLast?_skip (h : glance s b bs.head? = .onward t true) :
    (rounds s (b :: bs)).getLast? = (rounds t bs.tail).getLast? := by
  rw [rounds_skip h, List.getLast?_cons_of_ne_nil (rounds_ne_nil t bs.tail)]

end

/-! ### Bytes that change nothing -/

/-- A state that is reached from code: literals end with quotes. -/
def Scan.Reached : Scan → Prop
  | .quoted q => q = '"' ∨ q = '\''
  | .code | .comment => True

theorem glance_wide {s : Scan} (hs : s.Reached) {b : UInt8} (hb : Wide b) (next : Option UInt8) :
    glance s b next = .onward s false := by
  have hne : ∀ x, IsAscii x → b ≠ x.toUInt8 := by
    rintro x hx rfl
    exact not_wide_toUInt8 hx hb
  cases s with
  | code =>
    simp only [glance, hne '"' (by decide), hne '\'' (by decide), hne '/' (by decide), if_false,
      false_and]
  | comment => simp only [glance, hne '*' (by decide), if_false, false_and]
  | quoted q =>
    have hq : IsAscii q := by
      rcases hs with rfl | rfl <;> decide
    simp only [glance, hne '\\' (by decide), hne q hq, if_false]

/-- The scanner is in one state all through these bytes, and after them, whatever follows. -/
def Stays (s : Scan) (ws : List UInt8) : Prop :=
  ∀ rest, ∃ inside, rounds s (ws ++ rest) = inside ++ rounds s rest ∧ ∀ r ∈ inside, r.1 = s

theorem stays_nil (s : Scan) : Stays s [] := fun _ => ⟨[], rfl, by simp⟩

theorem Stays.append {s : Scan} {ws vs : List UInt8} (h : Stays s ws) (h' : Stays s vs) :
    Stays s (ws ++ vs) := by
  intro rest
  obtain ⟨inside, hws, hin⟩ := h (vs ++ rest)
  obtain ⟨inside', hvs, hin'⟩ := h' rest
  refine ⟨inside ++ inside', ?_, ?_⟩
  · rw [List.append_assoc, hws, hvs, List.append_assoc]
  · rw [List.forall_mem_append]
    exact ⟨hin, hin'⟩

theorem Stays.getLast? {s : Scan} {ws : List UInt8} (h : Stays s ws) (rest : List UInt8) :
    (rounds s (ws ++ rest)).getLast? = (rounds s rest).getLast? := by
  obtain ⟨inside, hws, -⟩ := h rest
  rw [hws, List.getLast?_append_of_ne_nil _ (rounds_ne_nil s rest)]

theorem stays_onward {s : Scan} {b : UInt8} (h : ∀ next, glance s b next = .onward s false) :
    Stays s [b] := by
  intro rest
  refine ⟨[(s, b :: rest)], rounds_onward (h _), ?_⟩
  intro r hr
  rw [List.mem_singleton.1 hr]

theorem stays_skip {s : Scan} {b : UInt8} (h : ∀ next, glance s b next = .onward s true)
    (d : UInt8) : Stays s [b, d] := by
  intro rest
  refine ⟨[(s, b :: d :: rest)], rounds_skip (h _), ?_⟩
  intro r hr
  rw [List.mem_singleton.1 hr]

/-- **Bytes beyond ASCII change nothing.** -/
theorem stays_of_wide {s : Scan} (hs : s.Reached) {ws : List UInt8} (hws : ∀ w ∈ ws, Wide w) :
    Stays s ws := by
  induction ws with
  | nil => exact stays_nil s
  | cons w ws ih =>
    obtain ⟨hw, hws⟩ := List.forall_mem_cons.1 hws
    exact (stays_onward (glance_wide hs hw)).append (ih hws)

/-! ### The end of a line -/

/-- What is made of a line when its rounds have come to their last: the line as it is, if no bytes
are left, and else what is before the comment that begins there, with the comment closed. -/
def Makes (last : Option (Scan × List UInt8)) (l : List Char) (made : List Char × Bool) : Prop :=
  (∃ t, last = some (t, []) ∧ made = (l, decide (t = .comment))) ∨
  ∃ before text, l = before ++ '/' :: '/' :: text ∧
    last = some (.code, utf8 ('/' :: '/' :: text)) ∧ made = (before ++ closedComment text, false)

theorem Makes.cons {last : Option (Scan × List UInt8)} {l : List Char} {made : List Char × Bool}
    (h : Makes last l made) (c : Char) : Makes last (c :: l) (c :: made.1, made.2) := by
  rcases h with ⟨t, hlast, rfl⟩ | ⟨before, text, rfl, hlast, rfl⟩
  · exact .inl ⟨t, hlast, rfl⟩
  · exact .inr ⟨c :: before, text, rfl, hlast, rfl⟩

/-- A character whose first byte leaves the scanner in state `t` is read in one go. -/
theorem getLast?_char {s t : Scan} (ht : t.Reached) {c : Char} {cs : List Char}
    (h : ∀ b ws, String.utf8EncodeChar c = b :: ws →
      glance s b (ws ++ utf8 cs).head? = .onward t false) :
    (rounds s (utf8 (c :: cs))).getLast? = (rounds t (utf8 cs)).getLast? := by
  obtain ⟨b, ws, hbytes, hws, -⟩ := exists_encode c
  rw [utf8_cons, hbytes, List.cons_append, getLast?_onward (h b ws hbytes),
    (stays_of_wide ht hws).getLast?]

/-- A character that is no mark is not taken for one through its first byte. -/
theorem first_ne {c : Char} {b : UInt8} {ws : List UInt8} (h : String.utf8EncodeChar c = b :: ws)
    {x : Char} (hx : IsAscii x) (hc : c ≠ x) : b ≠ x.toUInt8 := by
  obtain ⟨b', ws', hbytes, -, hfirst⟩ := exists_encode c
  obtain ⟨rfl, -⟩ := List.cons.inj (h.symm.trans hbytes)
  exact fun hb => hc ((hfirst x hx).1 hb)

/-- Two characters are not taken for two marks through the first byte and the one after it. -/
theorem first_two_ne {c : Char} {cs : List Char} {b : UInt8} {ws : List UInt8}
    (h : String.utf8EncodeChar c = b :: ws) {x y : Char} (hx : IsAscii x) (hy : IsAscii y)
    (hcs : ∀ ds, c = x → cs = y :: ds → False) :
    ¬ (b = x.toUInt8 ∧ (ws ++ utf8 cs).head? = some y.toUInt8) := by
  rintro ⟨hb, hnext⟩
  by_cases hc : c = x
  · subst hc
    rw [encode_ascii hx] at h
    obtain ⟨-, rfl⟩ := List.cons.inj h
    rw [List.nil_append, head?_utf8 hy] at hnext
    obtain ⟨ds, hds⟩ := List.head?_eq_some_iff.1 hnext
    exact hcs ds rfl hds
  · exact first_ne h hx hc hb

/-- Inside a literal, the first byte of a character that escapes nothing says whether the literal
ends. -/
theorem glance_quoted {q c : Char} (hq : IsAscii q) (hc : c ≠ '\\') {b : UInt8} {ws : List UInt8}
    (h : String.utf8EncodeChar c = b :: ws) (next : Option UInt8) :
    glance (.quoted q) b next = .onward (if c = q then .code else .quoted q) false := by
  rw [glance, if_neg (first_ne h (by decide) hc)]
  by_cases hcq : c = q
  · subst hcq
    rw [encode_ascii hq] at h
    obtain ⟨rfl, -⟩ := List.cons.inj h
    rw [if_pos rfl, if_pos rfl]
  · rw [if_neg (first_ne h hq hcq), if_neg hcq]

/-- In code, the first byte of a character that begins no comment says whether a literal begins. -/
theorem glance_code {c : Char} {cs : List Char} {b : UInt8} {ws : List UInt8}
    (h : String.utf8EncodeChar c = b :: ws) (hblock : ∀ ds, c = '/' → cs = '*' :: ds → False)
    (hline : ∀ ds, c = '/' → cs = '/' :: ds → False) :
    glance .code b (ws ++ utf8 cs).head? =
      .onward (if c = '"' ∨ c = '\'' then .quoted c else .code) false := by
  by_cases hquote : c = '"'
  · subst hquote
    rw [encode_ascii (by decide)] at h
    obtain ⟨rfl, -⟩ := List.cons.inj h
    rfl
  by_cases hmark : c = '\''
  · subst hmark
    rw [encode_ascii (by decide)] at h
    obtain ⟨rfl, -⟩ := List.cons.inj h
    rfl
  rw [glance, if_neg (first_ne h (by decide) hquote), if_neg (first_ne h (by decide) hmark),
    if_neg (first_two_ne h (by decide) (by decide) hblock),
    if_neg (first_two_ne h (by decide) (by decide) hline), if_neg (by simp [hquote, hmark])]

/-- After a mark that has the next byte skipped, the next character is read in one go. -/
theorem getLast?_pair {s t : Scan} (ht : t.Reached) {x c : Char} (hx : IsAscii x) {cs : List Char}
    (h : glance s x.toUInt8 (utf8 (c :: cs)).head? = .onward t true) :
    (rounds s (utf8 (x :: c :: cs))).getLast? = (rounds t (utf8 cs)).getLast? := by
  obtain ⟨b, ws, hbytes, hws, -⟩ := exists_encode c
  have htail : (utf8 (c :: cs)).tail = ws ++ utf8 cs := by
    rw [utf8_cons, hbytes]
    rfl
  rw [utf8_cons x, encode_ascii hx, List.singleton_append, getLast?_skip h, htail,
    (stays_of_wide ht hws).getLast?]

/-- **The rounds end where the scan of the characters does**, and so the line that is made is the
same. -/
theorem makes_closeLine {s : Scan} (hs : s.Reached) (l : List Char) :
    Makes (rounds s (utf8 l)).getLast? l (closeLine s l) := by
  induction s, l using closeLine.induct with
  | case1 s =>
    refine .inl ⟨s, ?_, by rw [closeLine]⟩
    rw [utf8_nil, rounds_nil]
    rfl
  | case2 cs out goesOn hcs ih =>
    rw [closeLine, getLast?_pair (t := .code) trivial (by decide)]
    · exact ((ih trivial).cons '/').cons '*'
    · rw [(head?_utf8 (by decide) _).2 rfl]
      rfl
  | case3 c cs hclose out goesOn hcs ih =>
    rw [closeLine, getLast?_char (t := .comment) trivial]
    · exact (ih trivial).cons c
    · intro b ws hbytes
      rw [glance, if_neg (first_two_ne hbytes (by decide) (by decide) hclose)]
    · exact hclose
  | case4 q ih =>
    rw [closeLine, utf8_cons, encode_ascii (by decide), List.singleton_append,
      getLast?_skip (t := .quoted q) (by rw [glance, if_pos rfl])]
    exact (ih hs).cons '\\'
  | case5 q c cs out goesOn hcs ih =>
    rw [closeLine, getLast?_pair hs (by decide) (by rw [glance, if_pos rfl])]
    exact ((ih hs).cons c).cons '\\'
  | case6 q c cs hend hescape out goesOn hcs ih =>
    have hq : IsAscii q := by
      rcases hs with rfl | rfl <;> decide
    have hc : c ≠ '\\' := by
      rintro rfl
      cases cs with
      | nil => exact hend rfl rfl
      | cons d ds => exact hescape d ds rfl rfl
    have hnext : (if c = q then Scan.code else .quoted q).Reached := by
      split
      · trivial
      · exact hs
    rw [closeLine, getLast?_char hnext]
    · exact (ih hnext).cons c
    · intro b ws hbytes
      exact glance_quoted hq hc hbytes _
    · exact hend
    · exact hescape
  | case7 cs out goesOn hcs ih =>
    rw [closeLine, getLast?_pair (t := .comment) trivial (by decide)]
    · exact ((ih trivial).cons '*').cons '/'
    · rw [(head?_utf8 (by decide) _).2 rfl]
      rfl
  | case8 cs =>
    refine .inr ⟨[], cs, rfl, ?_, by rw [closeLine]; rfl⟩
    have hnext : (utf8 ('/' :: cs)).head? = some '/'.toUInt8 := (head?_utf8 (by decide) _).2 rfl
    rw [utf8_cons, encode_ascii (by decide), List.singleton_append, rounds_lineComment]
    · rfl
    · rw [hnext]
      rfl
  | case9 c cs hblock hline out goesOn hcs ih =>
    have hnext : (if c = '"' ∨ c = '\'' then Scan.quoted c else .code).Reached := by
      split
      · next hc => exact hc
      · trivial
    rw [closeLine, getLast?_char hnext]
    · exact (ih hnext).cons c
    · intro b ws hbytes
      exact glance_code hbytes hblock hline
    · exact hblock
    · exact hline

end Header
end Marshal
