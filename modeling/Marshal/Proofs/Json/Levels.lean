import Marshal.Json.Read
import Marshal.Proofs.Data.Levels

/-!
# How deep a text goes

A draft that may be entered down to some number of levels is within as many.  Its numbers fit 64
bits because those of the tokens do, and building a draft adds no others.

## Main definitions

* `Draft.parts`, `Draft.Words` — the parts of a draft; a draft whose numbers fit.
* `Token.Words`, `Frame.Words`, `Building.Words` — the same of what drafts are built from.

## Main results

* `words_ofRaw` — the numbers of a text fit 64 bits.
* `within_of_words` — a draft is within as many levels as it may be entered.
* `read_within` — what is read of a text is measured by the greatest number of levels.
-/

namespace Marshal
namespace Json

open Data

/-! ### Drafts whose numbers fit -/

namespace Draft

/-- The items of a list, the values of a table. -/
def parts : Draft → List Draft
  | .seq items _ => items
  | .map entries _ => entries.map Prod.snd
  | _ => []

/-- All numbers in a draft fit 64 bits. -/
inductive Words : Draft → Prop where
  | mk {d : Draft} (natural : ∀ n, d = .natural n → n ≤ greatest64)
      (signed : ∀ i, d = .signed i → i.toNat ≤ greatest64) (parts : ∀ e ∈ d.parts, Words e) :
      Words d

theorem words_seq {items : List Draft} (h : ∀ d ∈ items, d.Words) (stop : Option Cut) :
    (Draft.seq items stop).Words :=
  .mk (by simp) (by simp) h

theorem words_map {entries : List (Key × Draft)} (h : ∀ e ∈ entries, e.2.Words)
    (stop : Option Cut) : (Draft.map entries stop).Words :=
  .mk (by simp) (by simp) (List.forall_mem_map.2 h)

theorem words_absent : Draft.absent.Words := .mk (by simp) (by simp) (by simp [parts])

theorem words_cut (opening : Opening) (read skip : Cut) : (Draft.cut opening read skip).Words :=
  .mk (by simp) (by simp) (by simp [parts])

end Draft

/-! ### Putting drafts aside -/

theorem mem_keepItems {room : Nat} {ds : List Draft} {vs : List Value}
    (h : Draft.keepItems room ds = .ok vs) {v : Value} (hv : v ∈ vs) :
    ∃ d ∈ ds, d.keep room = .ok v := by
  induction ds generalizing vs with
  | nil =>
    obtain rfl := Except.ok.inj h
    cases hv
  | cons d ds ih =>
    obtain ⟨w, hw, h⟩ := bind_eq_ok.1 h
    obtain ⟨rest, hrest, h⟩ := bind_eq_ok.1 h
    obtain rfl := Except.ok.inj h
    rcases List.mem_cons.1 hv with rfl | hv
    · exact ⟨d, List.mem_cons_self, hw⟩
    · obtain ⟨e, he, heq⟩ := ih hrest hv
      exact ⟨e, List.mem_cons_of_mem d he, heq⟩

theorem mem_keepEntries {room : Nat} {ds : List (Key × Draft)} {es : List (String × Value)}
    (h : Draft.keepEntries room ds = .ok es) {e : String × Value} (he : e ∈ es) :
    ∃ d ∈ ds, d.2.keep room = .ok e.2 := by
  induction ds generalizing es with
  | nil =>
    obtain rfl := Except.ok.inj h
    cases he
  | cons d ds ih =>
    obtain ⟨key, -, h⟩ := bind_eq_ok.1 h
    obtain ⟨w, hw, h⟩ := bind_eq_ok.1 h
    obtain ⟨rest, hrest, h⟩ := bind_eq_ok.1 h
    obtain rfl := Except.ok.inj h
    rcases List.mem_cons.1 he with rfl | he
    · exact ⟨d, List.mem_cons_self, hw⟩
    · obtain ⟨f, hf, heq⟩ := ih hrest he
      exact ⟨f, List.mem_cons_of_mem d hf, heq⟩

theorem elim_stop_eq_ok {stop : Option Cut} {v w : Value}
    (h : (stopFault stop).elim (Except.ok v) Except.error = .ok w) : v = w := by
  cases stop with
  | none => exact Except.ok.inj h
  | some cause => cases h

/-- A draft that was put aside has at most as many levels as there was room for. -/
theorem keep_levels {d : Draft} (h : d.Words) {room : Nat} {v : Value}
    (hv : d.keep room = .ok v) : v.depth ≤ room ∧ v.Words := by
  -- a list or table is only put aside if there is room for it, and its parts have one level less
  induction h generalizing room v with
  | @mk d natural signed _ ih =>
    cases d with
    | seq items stop =>
      rw [Draft.keep] at hv
      split at hv
      · cases hv
      · rename_i hroom
        obtain ⟨vs, hvs, hv⟩ := bind_eq_ok.1 hv
        obtain rfl := elim_stop_eq_ok hv
        have hitems : ∀ w ∈ vs, w.depth ≤ room - 1 ∧ w.Words := fun w hw => by
          obtain ⟨e, he, heq⟩ := mem_keepItems hvs hw
          exact ih e he heq
        exact ⟨Value.depth_seq_le.2 ⟨Nat.pos_of_ne_zero hroom, fun w hw => (hitems w hw).1⟩,
          Value.words_seq fun w hw => (hitems w hw).2⟩
    | map entries stop =>
      rw [Draft.keep] at hv
      split at hv
      · cases hv
      · rename_i hroom
        obtain ⟨es, hes, hv⟩ := bind_eq_ok.1 hv
        obtain rfl := elim_stop_eq_ok hv
        have hentries : ∀ e ∈ es, e.2.depth ≤ room - 1 ∧ e.2.Words := fun e he => by
          obtain ⟨f, hf, heq⟩ := mem_keepEntries hes he
          exact ih f.2 (List.mem_map_of_mem hf) heq
        exact ⟨Value.depth_map_le.2 ⟨Nat.pos_of_ne_zero hroom, fun e he => (hentries e he).1⟩,
          Value.words_map fun e he => (hentries e he).2⟩
    | natural n =>
      obtain rfl := Except.ok.inj hv
      exact ⟨Nat.zero_le _, .mk (by simpa using natural) (by simp) (by simp [Value.parts])⟩
    | signed i =>
      obtain rfl := Except.ok.inj hv
      exact ⟨Nat.zero_le _, .mk (by simp) (by simpa using signed) (by simp [Value.parts])⟩
    | null | bool | float | text =>
      obtain rfl := Except.ok.inj hv
      exact ⟨Nat.zero_le _, .mk (by simp) (by simp) (by simp [Value.parts])⟩
    | unreadable | absent | cut => cases hv

/-! ### Entering drafts -/

theorem opens_at {room : Nat} {d : Draft} {parts : List At} (h : Opens (⟨room, d⟩ : At) parts) :
    0 < room ∧ parts = d.parts.map fun e => ⟨room - 1, e⟩ := by
  have henter {β : Type} {elements : List β} {stop : Option Cut} {stream : Stream β}
      (h : (⟨room, d⟩ : At).enter elements stop = .ok stream) :
      0 < room ∧ stream.elements = elements := by
    unfold At.enter at h
    split at h
    · cases h
    · rename_i hroom
      obtain rfl := Except.ok.inj h
      exact ⟨Nat.pos_of_ne_zero hroom, rfl⟩
  cases h with
  | seq hlook =>
    cases d <;> simp only [Source.look, At.look, Except.ok.injEq, Look.seq.injEq, reduceCtorEq]
      at hlook
    obtain ⟨hroom, helements⟩ := henter hlook
    exact ⟨hroom, helements⟩
  | map hlook =>
    cases d <;> simp only [Source.look, At.look, Except.ok.injEq, Look.map.injEq, reduceCtorEq]
      at hlook
    obtain ⟨hroom, helements⟩ := henter hlook
    rw [helements, List.map_map]
    exact ⟨hroom, by simp [Draft.parts, At.inner]⟩

theorem readCount_at {room : Nat} {d : Draft} (h : d.Words) {k : Nat}
    (hk : readCount (⟨room, d⟩ : At) = .ok k) : k ≤ greatest64 := by
  obtain ⟨natural, signed, -⟩ := h
  rcases look_of_readCount hk with hlook | ⟨i, hlook, rfl⟩ <;> cases d <;> cases hlook
  · exact natural _ rfl
  · exact signed i rfl

/-- **A draft is within as many levels as there is room for.** -/
theorem within_of_words {d : Draft} (h : d.Words) (room : Nat) : Within room (⟨room, d⟩ : At) := by
  induction h generalizing room with
  | @mk d natural signed parts ih =>
    have hd : d.Words := .mk natural signed parts
    refine .mk (fun k => readCount_at hd) (fun _ hparts => (opens_at hparts).1)
      (fun ps hparts y hy => ?_) fun v => keep_levels hd
    obtain ⟨-, rfl⟩ := opens_at hparts
    obtain ⟨e, he, rfl⟩ := List.mem_map.1 hy
    exact ih e he (room - 1)

/-! ### The numbers of tokens -/

theorem gather_le {n : Nat} (h : n ≤ greatest64) (ds : List Nat) :
    (gather n ds).1 ≤ greatest64 := by
  induction ds generalizing n with
  | nil => exact h
  | cons d ds ih =>
    rw [gather]
    split
    · exact h
    · rename_i hfits
      exact ih (Nat.le_of_not_lt hfits)

/-- A whole number fits 64 bits. -/
def Number.Words : Number → Prop
  | .natural n => n ≤ greatest64
  | .signed i => i.toNat ≤ greatest64
  | .float _ | .tooLarge => True

theorem Numeral.words_number (s : Numeral) : s.number.Words := by
  have hwhole := gather_le (Nat.zero_le _) s.whole
  unfold Numeral.number
  generalize gather 0 s.whole = taken at hwhole
  obtain ⟨n, beyond⟩ := taken
  dsimp only
  -- only a number without fraction and exponent is whole; the others are trivial
  split
  · split
    · split <;> trivial
    · split
      · exact hwhole
      · split
        · trivial
        · show (-(n : Int)).toNat ≤ greatest64
          simp
  · split
    · split <;> trivial
    · split
      · split <;> trivial
      · split <;> trivial

/-- The number of a token, if it is one, fits 64 bits. -/
def Token.Words : Token → Prop
  | .natural n => n ≤ greatest64
  | .signed i => i.toNat ≤ greatest64
  | _ => True

theorem Numeral.words_token (s : Numeral) : s.token.Words := by
  have hnumber := s.words_number
  unfold Numeral.token
  split <;> rename_i heq <;> rw [heq] at hnumber
  · exact hnumber
  · exact hnumber
  · trivial
  · trivial

theorem words_close (t : TextSoFar) : t.close.Words := by
  unfold TextSoFar.close
  split <;> trivial

theorem words_scanText (t : TextSoFar) (gs : Raw) : (scanText t gs).1.Words := by
  fun_induction scanText t gs with
  | case3 => exact words_close _
  | case2 | case5 | case9 | case13 => assumption
  | _ => trivial

theorem words_scanLiteral {opening : Opening} {t : Token} (ht : t.Words) (cs : List Char)
    (gs : Raw) : (scanLiteral opening t cs gs).1.Words := by
  fun_induction scanLiteral opening t cs gs with
  | case1 => exact ht
  | case3 _ _ _ ih => exact ih
  | _ => exact trivial

theorem words_lacksDigit (gs : Raw) : (lacksDigit gs).Words := trivial

theorem words_scanFraction {gs rest : Raw} {t : Token} (h : scanFraction gs = (.error t, rest)) :
    t.Words := by
  unfold scanFraction at h
  split at h
  · split at h
    · obtain rfl := Except.error.inj (Prod.mk.inj h).1
      exact words_lacksDigit _
    · cases (Prod.mk.inj h).1
  · cases (Prod.mk.inj h).1

theorem words_scanPower {negative : Bool} {gs rest : Raw} {t : Token}
    (h : scanPower negative gs = (.error t, rest)) : t.Words := by
  unfold scanPower at h
  split at h
  · obtain rfl := Except.error.inj (Prod.mk.inj h).1
    exact words_lacksDigit _
  · cases (Prod.mk.inj h).1

theorem words_scanScale {gs rest : Raw} {t : Token} (h : scanScale gs = (.error t, rest)) :
    t.Words := by
  have hexponent {gs : Raw} (h : scanExponent gs = (.error t, rest)) : t.Words := by
    unfold scanExponent at h
    split at h <;> exact words_scanPower h
  unfold scanScale at h
  split at h
  · exact hexponent h
  · exact hexponent h
  · cases (Prod.mk.inj h).1

theorem words_scanRest (minus : Bool) (whole : List Nat) (gs : Raw) :
    (scanRest minus whole gs).1.Words := by
  unfold scanRest
  split
  · rename_i h
    exact words_scanFraction h
  · split
    · rename_i h
      exact words_scanScale h
    · exact Numeral.words_token _

theorem words_scanNumber (minus : Bool) (gs : Raw) : (scanNumber minus gs).1.Words := by
  unfold scanNumber
  split
  · exact words_lacksDigit _
  · exact trivial
  · exact words_scanRest ..

theorem words_scanToken (g : Glyph) (gs : Raw) : (scanToken g gs).1.Words := by
  unfold scanToken
  split
  case h_7 => exact words_scanText ..
  case h_8 => exact words_scanNumber ..
  case h_9 => exact words_scanLiteral (by trivial) ..
  case h_10 => exact words_scanLiteral (by trivial) ..
  case h_11 => exact words_scanLiteral (by trivial) ..
  case h_12 =>
    split
    · exact words_scanNumber ..
    · exact trivial
  all_goals exact trivial

/-- The numbers of all tokens fit 64 bits. -/
theorem words_tokens (gs : Raw) : ∀ t ∈ tokens gs, t.Words := by
  fun_induction tokens gs with
  | case1 => exact List.forall_mem_nil _
  | case2 _ _ _ ih => exact ih
  | case3 g gs => exact List.forall_mem_singleton.2 (words_scanToken g gs)
  | case4 g gs _ _ _ ih => exact List.forall_mem_cons.2 ⟨words_scanToken g gs, ih⟩

/-! ### The numbers of drafts under way -/

theorem words_ofToken {t : Token} (h : t.Words) : (Draft.ofToken t).Words := by
  refine .mk ?_ ?_ ?_ <;>
    cases t <;> simp_all [Draft.ofToken, Draft.parts, Draft.misplaced, Token.Words]

/-- The values that an open container holds so far. -/
def Frame.drafts : Frame → List Draft
  | .seq done => done
  | .map done | .entry done _ => done.map Prod.snd

/-- All numbers in an open container fit 64 bits. -/
def Frame.Words (f : Frame) : Prop := ∀ d ∈ f.drafts, d.Words

/-- All numbers in a draft under way fit 64 bits. -/
def Building.Words : Building → Prop
  | .going frames _ => ∀ f ∈ frames, f.Words
  | .complete d _ => d.Words

namespace Building

theorem words_place {frames : List Frame} {d : Draft} (hframes : ∀ f ∈ frames, f.Words)
    (hd : d.Words) : (place frames d).Words := by
  cases frames with
  | nil => exact hd
  | cons f fs =>
    obtain ⟨hf, hfs⟩ := List.forall_mem_cons.1 hframes
    cases f with
    | seq done => exact List.forall_mem_cons.2 ⟨List.forall_mem_cons.2 ⟨hd, hf⟩, hfs⟩
    | map done => exact hframes
    | entry done key => exact List.forall_mem_cons.2 ⟨List.forall_mem_cons.2 ⟨hd, hf⟩, hfs⟩

theorem words_of_seq {done : List Draft} (h : (Frame.seq done).Words) :
    ∀ d ∈ done.reverse, d.Words := fun d hd => h d (List.mem_reverse.1 hd)

theorem words_of_map {done : List (Key × Draft)} (h : (Frame.map done).Words) :
    ∀ e ∈ done.reverse, e.2.Words := fun e he => h e.2 (List.mem_map_of_mem (List.mem_reverse.1 he))

theorem words_shut {f : Frame} {d : Draft} (hf : f.Words) (hd : d.Words) : (shut d f).Words := by
  cases f with
  | seq done =>
    exact Draft.words_seq (List.forall_mem_append.2
      ⟨words_of_seq hf, List.forall_mem_singleton.2 hd⟩) _
  | map done => exact Draft.words_map (words_of_map hf) _
  | entry done key =>
    exact Draft.words_map (List.forall_mem_append.2
      ⟨words_of_map hf, List.forall_mem_singleton.2 hd⟩) _

theorem words_stopAt {frames : List Frame} {d : Draft} (hframes : ∀ f ∈ frames, f.Words)
    (hd : d.Words) : (stopAt frames d).Words := by
  show (frames.foldl shut d).Words
  induction frames generalizing d with
  | nil => exact hd
  | cons f fs ih =>
    obtain ⟨hf, hfs⟩ := List.forall_mem_cons.1 hframes
    exact ih hfs (words_shut hf hd)

theorem words_stop {frames : List Frame} (hframes : ∀ f ∈ frames, f.Words) (cause : Cut) :
    (stop cause frames).Words := by
  cases frames with
  | nil => exact Draft.words_absent
  | cons f fs =>
    obtain ⟨hf, hfs⟩ := List.forall_mem_cons.1 hframes
    cases f with
    | seq done => exact words_stopAt hfs (Draft.words_seq (words_of_seq hf) _)
    | map done => exact words_stopAt hfs (Draft.words_map (words_of_map hf) _)
    | entry done key =>
      have hdone : (Frame.map ((key, .absent) :: done)).Words :=
        List.forall_mem_cons.2 ⟨Draft.words_absent, hf⟩
      exact words_stopAt hfs (Draft.words_map (words_of_map hdone) _)

theorem words_stepValue {frames : List Frame} (hframes : ∀ f ∈ frames, f.Words) {t : Token}
    (ht : t.Words) : (stepValue frames t).Words := by
  unfold stepValue
  split
  · exact List.forall_mem_cons.2 ⟨List.forall_mem_nil _, hframes⟩
  · exact List.forall_mem_cons.2 ⟨List.forall_mem_nil _, hframes⟩
  · split
    · exact words_stopAt hframes (Draft.words_cut ..)
    · exact words_place hframes (words_ofToken ht)

/-- A key that is started adds no number. -/
theorem words_entry {done : List (Key × Draft)} {frames : List Frame}
    (h : ∀ f ∈ Frame.map done :: frames, f.Words) (key : Key) :
    ∀ f ∈ Frame.entry done key :: frames, f.Words := by
  obtain ⟨hf, hfs⟩ := List.forall_mem_cons.1 h
  exact List.forall_mem_cons.2 ⟨hf, hfs⟩

theorem words_stepKey {done : List (Key × Draft)} {frames : List Frame}
    (hframes : ∀ f ∈ Frame.map done :: frames, f.Words) (t : Token) :
    (stepKey done frames t).Words := by
  have hentry := words_entry hframes (Key.ofToken t)
  unfold stepKey
  dsimp only
  split
  · exact hentry
  · exact words_stopAt hentry Draft.words_absent

/-- Taking in a token whose number fits adds no number that does not. -/
theorem words_step {b : Building} (hb : b.Words) {t : Token} (ht : t.Words) : (b.step t).Words := by
  unfold step
  split
  -- only values, closed containers and keys add anything; all else leaves what there is as it is
  case h_1 => exact hb
  case h_2 | h_4 => exact words_stepValue hb ht
  case h_3 | h_11 =>
    obtain ⟨hf, hfs⟩ := List.forall_mem_cons.1 hb
    exact words_place hfs (Draft.words_seq (words_of_seq hf) _)
  case h_5 | h_13 =>
    obtain ⟨hf, hfs⟩ := List.forall_mem_cons.1 hb
    exact words_place hfs (Draft.words_map (words_of_map hf) _)
  case h_6 | h_7 => exact words_stepKey hb _
  case h_9 => exact words_stopAt hb (Draft.words_cut ..)
  case h_14 => exact words_stop hb _
  all_goals exact hb

theorem words_finish {b : Building} (hb : b.Words) : b.finish.Words := by
  unfold finish
  split
  · exact words_stopAt hb Draft.words_absent
  · exact words_stopAt hb Draft.words_absent
  · exact words_stopAt (words_entry hb _) Draft.words_absent
  · exact words_stop hb _
  · exact hb

end Building

/-- **All numbers of a text fit 64 bits.** -/
theorem words_ofRaw (raw : Raw) : (Reading.ofRaw raw).draft.Words := by
  have hstart : (Building.going [] .value).Words := List.forall_mem_nil _
  have hall : ((tokens raw).foldl Building.step (.going [] .value)).Words := by
    have htokens := words_tokens raw
    generalize tokens raw = ts at htokens
    generalize Building.going [] .value = b at hstart
    induction ts generalizing b with
    | nil => exact hstart
    | cons t ts ih =>
      obtain ⟨ht, hts⟩ := List.forall_mem_cons.1 htokens
      exact ih hts _ (Building.words_step hstart ht)
  have hfinish := Building.words_finish hall
  unfold Reading.ofRaw Reading.ofTokens
  split
  · rename_i heq
    rw [heq] at hfinish
    exact hfinish
  · exact Draft.words_absent

/-! ### What is read of a text -/

/-- **What is read of a text is measured by the greatest number of levels.** -/
theorem read_within {α : Type} {decode : At → Except Fault α} {P : Nat → α → Prop}
    (h : Measures decode P) {raw : Raw} {a : α} (ha : read decode raw = .ok a) : P deepest a := by
  unfold read at ha
  obtain ⟨b, hb, ha⟩ := bind_eq_ok.1 ha
  have hP := h deepest _ b (within_of_words (words_ofRaw raw) deepest) hb
  split at ha
  · exact absurd ha (by simp [throw, throwThe, MonadExceptOf.throw, bind, Except.bind])
  · exact Except.ok.inj ha ▸ hP

end Json
end Marshal
