import Marshal.Json.Print
import Marshal.Json.Token

/-!
# Printed texts and numbers are scanned as what they were

A text between quotes is scanned character by character, so that what one character is written
as can be taken in on its own, whatever follows it.  A number is scanned up to the first glyph
that could belong to it, so that it comes back if none of what follows is such a glyph.

## Main definitions

* `chars` — characters as they arrive.
* `EndsNumber` — what may follow a number.

## Main results

* `scanText_writeText` — a text is scanned as itself.
* `scanNumber_digits` — a whole number that fits 64 bits is scanned as itself.
-/

namespace Marshal
namespace Json

/-- Characters as they arrive. -/
def chars (cs : List Char) : Raw := cs.map .char

@[simp] theorem chars_nil : chars [] = [] := rfl

@[simp] theorem chars_cons (c : Char) (cs : List Char) : chars (c :: cs) = .char c :: chars cs :=
  rfl

@[simp] theorem chars_append (cs ds : List Char) : chars (cs ++ ds) = chars cs ++ chars ds :=
  List.map_append

/-! ### Texts -/

theorem hexNumber?_controlDigits : ∀ n < 0x20,
    hexNumber? (.char '0') (.char '0') (.char (Nat.digitChar (n / 16)))
      (.char (Nat.digitChar (n % 16))) = some n := by
  decide

theorem pushUnit_toNat (t : TextSoFar) {c : Char} (h : c.toNat < 0x20) :
    t.pushUnit c.toNat = t.push c := by
  have hlow : ¬ 0xDC00 ≤ c.toNat := by omega
  have hhigh : ¬ 0xD800 ≤ c.toNat := by omega
  simp [TextSoFar.pushUnit, hlow, hhigh]

/-- What a character is written as is scanned as that character, whatever follows. -/
theorem scanText_writeChar (t : TextSoFar) (c : Char) (gs : Raw) :
    scanText t (chars (writeChar c) ++ gs) = scanText (t.push c) gs := by
  unfold writeChar
  split
  · rfl
  · rfl
  · rfl
  · rfl
  · rfl
  · rfl
  · rfl
  · next hquote hslash _ _ _ _ _ =>
    split
    · next hc =>
      simp only [controlDigits, chars_cons, chars_nil, List.cons_append, List.nil_append]
      rw [scanText, hexNumber?_controlDigits _ hc, ← pushUnit_toNat t hc]
    · next hc =>
      rw [chars_cons, chars_nil, List.cons_append, List.nil_append, scanText, if_neg hc]
      · exact hquote
      all_goals simp_all

theorem scanText_flatMap_writeChar (t : TextSoFar) (cs : List Char) (gs : Raw) :
    scanText t (chars (cs.flatMap writeChar) ++ gs) = scanText (cs.foldl .push t) gs := by
  induction cs generalizing t with
  | nil => rfl
  | cons c cs ih =>
    rw [List.flatMap_cons, chars_append, List.append_assoc, scanText_writeChar, ih]
    rfl

theorem foldl_push (cs cs₀ : List Char) :
    cs.foldl TextSoFar.push ⟨cs₀, none, false, false⟩ =
      ⟨cs.reverse ++ cs₀, none, false, false⟩ := by
  induction cs generalizing cs₀ with
  | nil => rfl
  | cons c cs ih =>
    rw [List.foldl_cons, List.reverse_cons, List.append_assoc]
    exact ih (c :: cs₀)

/-- **A text between quotes is scanned as itself**, whatever follows. -/
theorem scanText_writeText (s : String) (gs : Raw) :
    scanText ⟨[], none, false, false⟩ (chars (s.toList.flatMap writeChar) ++ .char '"' :: gs) =
      (.text s, gs) := by
  rw [scanText_flatMap_writeChar, foldl_push, List.append_nil, scanText]
  simp [TextSoFar.close]

/-! ### Numbers -/

/-- What may follow a number: no digit, point or letter of an exponent. -/
def EndsNumber (gs : Raw) : Prop :=
  ∀ c ∈ gs.head?, ∀ d, c = .char d → d.isDigit = false ∧ d ≠ '.' ∧ d ≠ 'e' ∧ d ≠ 'E'

theorem endsNumber_nil : EndsNumber [] := by simp [EndsNumber]

theorem endsNumber_cons {c : Char} (h : c.isDigit = false ∧ c ≠ '.' ∧ c ≠ 'e' ∧ c ≠ 'E')
    (gs : Raw) : EndsNumber (.char c :: gs) := by
  rintro _ ⟨⟩ _ ⟨⟩
  exact h

theorem spanDigits_of_endsNumber {gs : Raw} (h : EndsNumber gs) : spanDigits gs = ([], gs) := by
  match gs, h with
  | [], _ => rfl
  | .broken n :: gs, _ => rfl
  | .char c :: gs, h => simp [spanDigits, (h _ rfl c rfl).1]

theorem spanDigits_digits {cs : List Char} (hcs : ∀ c ∈ cs, c.isDigit) {gs : Raw}
    (h : EndsNumber gs) :
    spanDigits (chars cs ++ gs) = (cs.map fun c => c.toNat - '0'.toNat, gs) := by
  induction cs with
  | nil => exact spanDigits_of_endsNumber h
  | cons c cs ih =>
    have hc : c.isDigit := hcs c List.mem_cons_self
    have ih := ih fun d hd => hcs d (List.mem_cons_of_mem c hd)
    rw [chars_cons, List.cons_append, spanDigits, if_pos hc, ih]
    rfl

theorem le_ofDigitChars (cs : List Char) (n : Nat) : n ≤ Nat.ofDigitChars 10 cs n := by
  induction cs generalizing n with
  | nil => exact Nat.le_refl n
  | cons c cs ih =>
    rw [Nat.ofDigitChars_cons]
    exact Nat.le_trans (by omega) (ih _)

/-- Digits are gathered to the number that they spell, if it fits 64 bits. -/
theorem gather_digits (cs : List Char) (n : Nat) (h : Nat.ofDigitChars 10 cs n ≤ greatest64) :
    gather n (cs.map fun c => c.toNat - '0'.toNat) = (Nat.ofDigitChars 10 cs n, []) := by
  induction cs generalizing n with
  | nil => rfl
  | cons c cs ih =>
    rw [Nat.ofDigitChars_cons, Nat.mul_comm 10 n] at h ⊢
    have hle := Nat.le_trans (le_ofDigitChars cs _) h
    rw [List.map_cons, gather, if_neg (Nat.not_lt.2 hle)]
    exact ih _ h

/-- The digits of a number do not begin with a zero, but for that of zero itself. -/
theorem toDigits_eq_cons (n : Nat) :
    ∃ c cs, Nat.toDigits 10 n = c :: cs ∧ (cs = [] ∨ c.toNat - '0'.toNat ≠ 0) := by
  induction n using Nat.strongRecOn with
  | ind n ih =>
    by_cases hn : n < 10
    · exact ⟨_, [], Nat.toDigits_of_lt_base hn, .inl rfl⟩
    · obtain ⟨c, cs, hcs, hc⟩ := ih (n / 10) (by omega)
      rw [Nat.toDigits_of_base_le (by decide) (by omega), hcs]
      refine ⟨c, _, List.cons_append, .inr ?_⟩
      rcases hc with rfl | hc
      · -- then `n / 10` has one digit, which is not zero
        have hlt : n / 10 < 10 ^ 1 := (Nat.length_toDigits_le_iff (by decide) (by decide)).1
          (by rw [hcs]; exact Nat.le_refl 1)
        rw [Nat.toDigits_of_lt_base (by omega)] at hcs
        have hchar : c = Nat.digitChar (n / 10) := (List.cons.inj hcs).1.symm
        have hval : c.toNat - '0'.toNat = n / 10 := by
          rw [hchar]
          exact Nat.toNat_digitChar_sub_48_of_lt_ten (by omega)
        omega
      · exact hc

theorem scanRest_of_endsNumber {gs : Raw} (h : EndsNumber gs) (minus : Bool) (whole : List Nat) :
    scanRest minus whole gs = (Numeral.token ⟨minus, whole, none, none⟩, gs) := by
  have hfraction : scanFraction gs = (.ok none, gs) := by
    unfold scanFraction
    split
    · exact absurd rfl (h _ rfl _ rfl).2.1
    · rfl
  have hscale : scanScale gs = (.ok none, gs) := by
    unfold scanScale
    split
    · exact absurd rfl (h _ rfl _ rfl).2.2.1
    · exact absurd rfl (h _ rfl _ rfl).2.2.2
    · rfl
  simp only [scanRest, hfraction, hscale]

/-- **A whole number that fits 64 bits is scanned as itself**, if what follows ends it. -/
theorem scanNumber_digits {n : Nat} (hn : n ≤ greatest64) {gs : Raw} (h : EndsNumber gs) :
    scanNumber false (chars (Nat.toDigits 10 n) ++ gs) = (.natural n, gs) := by
  have hdigits : ∀ c ∈ Nat.toDigits 10 n, c.isDigit := fun c hc =>
    Nat.isDigit_of_mem_toDigits (by decide) (by decide) hc
  have hgather : gather 0 ((Nat.toDigits 10 n).map fun c => c.toNat - '0'.toNat) = (n, []) := by
    rw [gather_digits _ 0 (by simpa using hn), Nat.ofDigitChars_ten_toDigits]
  have htoken : Numeral.token
      ⟨false, (Nat.toDigits 10 n).map fun c => c.toNat - '0'.toNat, none, none⟩ = .natural n := by
    simp only [Numeral.token, Numeral.number, hgather]
    rfl
  obtain ⟨c, cs, hcs, hc⟩ := toDigits_eq_cons n
  rw [scanNumber, spanDigits_digits hdigits h]
  rw [hcs, List.map_cons] at htoken ⊢
  split
  · next heq => cases heq
  · next heq =>
    -- a leading zero is the only digit
    obtain ⟨hzero, hmore⟩ := List.cons.inj (Prod.mk.inj heq).1
    rcases hc with rfl | hc
    · cases hmore
    · exact absurd hzero hc
  · next heq =>
    obtain ⟨rfl, rfl⟩ := Prod.mk.inj heq
    rw [scanRest_of_endsNumber h, htoken]

end Json
end Marshal
