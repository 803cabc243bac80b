import Marshal.Json.Draft
import Marshal.Proofs.Data.Shows
import Marshal.Proofs.Json.Scan

/-!
# The draft of a printed value is that value

Taking in the tokens of a printed value, in whatever containers are open around it, comes to the
same as putting its draft in place.

## Main definitions

* `Draft.ofValue` — a value as a draft.
* `Building.run` — taking in the tokens of a raw text.

## Main results

* `run_write` — what taking in a printed value comes to.
* `ofRaw_print` — the reading of a printed value.
-/

namespace Marshal

namespace Json

open Data

/-! ### Values as drafts -/

namespace Draft

mutual

/-- A value as a draft. -/
def ofValue : Value → Draft
  | .null => .null
  | .bool b => .bool b
  | .natural n => .natural n
  | .signed i => .signed i
  | .float spelling => .float spelling
  | .text s => .text s
  | .seq items => .seq (ofItems items) none
  | .map entries => .map (ofEntries entries) none

/-- The items of a list as drafts. -/
def ofItems : List Value → List Draft
  | [] => []
  | v :: vs => ofValue v :: ofItems vs

/-- The entries of a table as drafts. -/
def ofEntries : List (String × Value) → List (Key × Draft)
  | [] => []
  | (k, v) :: es => (.text k, ofValue v) :: ofEntries es

end

theorem ofItems_eq_map (vs : List Value) : ofItems vs = vs.map ofValue := by
  induction vs with
  | nil => rfl
  | cons v vs ih => rw [ofItems, ih, List.map_cons]

theorem ofEntries_eq_map (es : List (String × Value)) :
    ofEntries es = es.map fun e => (.text e.1, ofValue e.2) := by
  induction es with
  | nil => rfl
  | cons e es ih => rw [ofEntries, ih, List.map_cons]

end Draft

/-! ### Lists and tables, item by item -/

theorem writeItems_cons (v : Value) (vs : List Value) :
    writeItems (v :: vs) = write v ++ vs.flatMap fun w => ',' :: write w := by
  induction vs generalizing v with
  | nil => rw [writeItems, List.flatMap_nil, List.append_nil]
  | cons w vs ih => rw [writeItems, ih, List.flatMap_cons, List.cons_append]

/-- An entry of a table as it is written. -/
def writeEntry (e : String × Value) : List Char := writeText e.1 ++ ':' :: write e.2

theorem writeEntries_cons (e : String × Value) (es : List (String × Value)) :
    writeEntries (e :: es) = writeEntry e ++ es.flatMap fun f => ',' :: writeEntry f := by
  induction es generalizing e with
  | nil => rw [writeEntries, List.flatMap_nil, List.append_nil, writeEntry]
  | cons f es ih =>
    rw [writeEntries, ih, List.flatMap_cons]
    simp [writeEntry]

/-! ### Taking in a raw text -/

namespace Building

/-- Take in the tokens of a raw text. -/
def run (b : Building) (gs : Raw) : Building := (tokens gs).foldl step b

@[simp] theorem run_nil (b : Building) : run b [] = b := by rw [run, tokens, List.foldl_nil]

theorem run_cons {g : Glyph} {gs rest : Raw} {t : Token} (hg : isSpace g = false)
    (h : scanToken g gs = (t, rest)) (ht : t.isCut = false) (b : Building) :
    run b (g :: gs) = run (b.step t) rest := by
  simp [run, tokens, hg, h, ht]

theorem run_openSeq (b : Building) (gs : Raw) :
    run b (.char '[' :: gs) = run (b.step .openSeq) gs := run_cons (by decide) rfl rfl b

theorem run_closeSeq (b : Building) (gs : Raw) :
    run b (.char ']' :: gs) = run (b.step .closeSeq) gs := run_cons (by decide) rfl rfl b

theorem run_openMap (b : Building) (gs : Raw) :
    run b (.char '\x7b' :: gs) = run (b.step .openMap) gs := run_cons (by decide) rfl rfl b

theorem run_closeMap (b : Building) (gs : Raw) :
    run b (.char '\x7d' :: gs) = run (b.step .closeMap) gs := run_cons (by decide) rfl rfl b

theorem run_comma (b : Building) (gs : Raw) :
    run b (.char ',' :: gs) = run (b.step .comma) gs := run_cons (by decide) rfl rfl b

theorem run_colon (b : Building) (gs : Raw) :
    run b (.char ':' :: gs) = run (b.step .colon) gs := run_cons (by decide) rfl rfl b

theorem run_writeText (b : Building) (s : String) (gs : Raw) :
    run b (chars (writeText s) ++ gs) = run (b.step (.text s)) gs := by
  have h : scanToken (.char '"') (chars (s.toList.flatMap writeChar) ++ .char '"' :: gs) =
      (.text s, gs) := scanText_writeText s gs
  have hsplit : chars (writeText s) ++ gs =
      .char '"' :: (chars (s.toList.flatMap writeChar) ++ .char '"' :: gs) := by
    simp [writeText]
  rw [hsplit]
  exact run_cons (by decide) h rfl b

theorem scanToken_digit {d : Nat} (hd : d < 10) (gs : Raw) :
    scanToken (.char (Nat.digitChar d)) gs = scanNumber false (.char (Nat.digitChar d) :: gs) ∧
      isSpace (.char (Nat.digitChar d)) = false := by
  match d, hd with
  | 0, _ | 1, _ | 2, _ | 3, _ | 4, _ | 5, _ | 6, _ | 7, _ | 8, _ | 9, _ => exact ⟨rfl, by decide⟩
  | d + 10, hd => omega

theorem digitChar_of_isDigit {c : Char} (h : c.isDigit) : ∃ d < 10, c = Nat.digitChar d := by
  have hrange : 48 ≤ c.toNat ∧ c.toNat ≤ 57 := by
    simpa [Char.isDigit, UInt32.le_iff_toNat_le] using h
  refine ⟨c.toNat - 48, by omega, Char.toNat_inj.1 ?_⟩
  rw [Nat.toNat_digitChar_of_lt_ten (by omega)]
  omega

theorem run_natural {n : Nat} (hn : n ≤ greatest64) (b : Building) {gs : Raw}
    (h : EndsNumber gs) :
    run b (chars (toString n).toList ++ gs) = run (b.step (.natural n)) gs := by
  have hscan := scanNumber_digits hn h
  rw [Nat.toString_eq_repr, Nat.toList_repr]
  obtain ⟨c, cs, hcs, -⟩ := toDigits_eq_cons n
  have hdigit : c.isDigit := Nat.isDigit_of_mem_toDigits (by decide : 0 < 10) (by decide)
    (hcs ▸ List.mem_cons_self)
  obtain ⟨d, hd, rfl⟩ := digitChar_of_isDigit hdigit
  obtain ⟨htoken, hspace⟩ := scanToken_digit hd (chars cs ++ gs)
  rw [hcs, chars_cons, List.cons_append] at hscan ⊢
  exact run_cons hspace (htoken.trans hscan) rfl b

end Building

/-! ### Taking in a printed value -/

open Building

/-- A value may start where `due` is due, in the containers that are open. -/
def Building.Starts (frames : List Frame) (due : Due) : Prop :=
  ∀ t, t ≠ .closeSeq → step (.going frames due) t = stepValue frames t

theorem starts_value (frames : List Frame) : Starts frames .value := fun _ _ => rfl

theorem starts_item (frames : List Frame) : Starts frames .item := by
  intro t ht
  cases frames with
  | nil => rfl
  | cons f fs => cases f <;> cases t <;> first | rfl | exact absurd rfl ht

theorem endsNumber_flatMap_comma {α : Type} (f : α → List Char) (as : List α) {c : Char}
    (h : c.isDigit = false ∧ c ≠ '.' ∧ c ≠ 'e' ∧ c ≠ 'E') (gs : Raw) :
    EndsNumber (chars (as.flatMap fun a => ',' :: f a) ++ .char c :: gs) := by
  cases as with
  | nil => exact endsNumber_cons h gs
  | cons a as => exact endsNumber_cons (by decide) _

/-- What taking in a printed value comes to, wherever a value may start. -/
abbrev Runs (v : Value) : Prop :=
  ∀ frames due gs, Starts frames due → EndsNumber gs →
    run (.going frames due) (chars (write v) ++ gs) = run (place frames (.ofValue v)) gs

theorem run_items {vs : List Value} (h : ∀ v ∈ vs, Runs v) (done : List Draft)
    (frames : List Frame) (gs : Raw) :
    run (.going (.seq done :: frames) .more)
        (chars (vs.flatMap fun v => ',' :: write v) ++ .char ']' :: gs) =
      run (place frames (.seq (done.reverse ++ vs.map .ofValue) none)) gs := by
  induction vs generalizing done with
  | nil => rw [List.map_nil, List.append_nil]; exact run_closeSeq _ gs
  | cons v vs ih =>
    have hv := h v List.mem_cons_self
    rw [List.flatMap_cons, List.cons_append, chars_cons, List.cons_append, run_comma, chars_append,
      List.append_assoc]
    rw [show step (.going (.seq done :: frames) .more) .comma = .going (.seq done :: frames) .value
      from rfl, hv _ _ _ (starts_value _) (endsNumber_flatMap_comma _ _ (by decide) _), place]
    rw [ih fun w hw => h w (List.mem_cons_of_mem v hw)]
    simp

theorem run_entry {e : String × Value} (he : Runs e.2) (done : List (Key × Draft))
    (frames : List Frame) {due : Due} (hdue : due = .first ∨ due = .key) {gs : Raw}
    (hgs : EndsNumber gs) :
    run (.going (.map done :: frames) due) (chars (writeEntry e) ++ gs) =
      run (.going (.map ((.text e.1, .ofValue e.2) :: done) :: frames) .more) gs := by
  have hstep : step (.going (.map done :: frames) due) (.text e.1) =
      .going (.entry done (.text e.1) :: frames) .colon := by
    rcases hdue with rfl | rfl <;> rfl
  rw [writeEntry, chars_append, List.append_assoc, run_writeText, hstep, chars_cons,
    List.cons_append, run_colon]
  exact he _ _ _ (starts_value _) hgs

theorem run_entries {es : List (String × Value)} (h : ∀ e ∈ es, Runs e.2)
    (done : List (Key × Draft)) (frames : List Frame) (gs : Raw) :
    run (.going (.map done :: frames) .more)
        (chars (es.flatMap fun e => ',' :: writeEntry e) ++ .char '\x7d' :: gs) =
      run (place frames (.map (done.reverse ++ es.map fun e => (.text e.1, .ofValue e.2)) none))
        gs := by
  induction es generalizing done with
  | nil => rw [List.map_nil, List.append_nil]; exact run_closeMap _ gs
  | cons e es ih =>
    have he := h e List.mem_cons_self
    rw [List.flatMap_cons, List.cons_append, chars_cons, List.cons_append, run_comma, chars_append,
      List.append_assoc]
    rw [show step (.going (.map done :: frames) .more) .comma = .going (.map done :: frames) .key
      from rfl, run_entry he done frames (.inr rfl) (endsNumber_flatMap_comma _ _ (by decide) _)]
    rw [ih fun f hf => h f (List.mem_cons_of_mem e hf)]
    simp

/-- **Taking in a printed value comes to putting its draft in place.** -/
theorem run_write {v : Value} (h : v.Plain) : Runs v := by
  induction h with
  | natural hn =>
    intro frames due gs hdue hgs
    rw [write, run_natural hn _ hgs, hdue _ (by simp)]
    rfl
  | text s =>
    intro frames due gs hdue _
    rw [write, run_writeText, hdue _ (by simp)]
    rfl
  | @seq items _ ih =>
    intro frames due gs hdue _
    rw [write, Draft.ofValue, Draft.ofItems_eq_map, List.cons_append, List.cons_append,
      chars_cons, List.cons_append, run_openSeq, hdue _ (by decide), List.nil_append, chars_append,
      List.append_assoc, chars_cons, chars_nil, List.cons_append, List.nil_append]
    -- the first item starts where the list could end as well, the others after a comma
    cases items with
    | nil => exact run_closeSeq _ gs
    | cons v vs =>
      rw [writeItems_cons, chars_append, List.append_assoc]
      rw [show stepValue frames .openSeq = .going (.seq [] :: frames) .item from rfl,
        ih v List.mem_cons_self _ _ _ (starts_item _)
          (endsNumber_flatMap_comma _ _ (by decide) _), place]
      exact run_items (fun w hw => ih w (List.mem_cons_of_mem v hw)) _ _ _
  | @map entries _ ih =>
    intro frames due gs hdue _
    rw [write, Draft.ofValue, Draft.ofEntries_eq_map, List.cons_append, List.cons_append,
      chars_cons, List.cons_append, run_openMap, hdue _ (by decide), List.nil_append, chars_append,
      List.append_assoc, chars_cons, chars_nil, List.cons_append, List.nil_append]
    -- and so does the first entry
    cases entries with
    | nil => exact run_closeMap _ gs
    | cons e es =>
      rw [writeEntries_cons, chars_append, List.append_assoc]
      rw [show stepValue frames .openMap = .going (.map [] :: frames) .first from rfl,
        run_entry (ih e List.mem_cons_self) _ _ (.inl rfl)
          (endsNumber_flatMap_comma _ _ (by decide) _)]
      exact run_entries (fun f hf => ih f (List.mem_cons_of_mem e hf)) _ _ _

/-- **The reading of a printed value is that value, with nothing after it.** -/
theorem ofRaw_print {v : Value} (h : v.Plain) :
    Reading.ofRaw (Raw.ofText (print v)) = ⟨.ofValue v, false⟩ := by
  have hrun := run_write h [] .value [] (starts_value []) endsNumber_nil
  rw [List.append_nil, run_nil, run] at hrun
  rw [Reading.ofRaw, Reading.ofTokens, Raw.ofText, print, String.toList_ofList]
  rw [show (write v).map Glyph.char = chars (write v) from rfl, hrun]
  rfl

end Json
end Marshal
