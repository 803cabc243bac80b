import Marshal.Data.Kept
import Marshal.Json.Number
import Marshal.Proofs.Data.Gives

/-!
# How deep a source goes

A source is **within** some number of levels if no more lists and tables can be entered inside
each other, whatever is looked at or put aside, and all numbers that are met fit 64 bits.  What is
read from such a source can be measured along with it: a list or record takes one level, and its
parts are within the levels that are left.

## Main definitions

* `Value.parts`, `Value.Words` — the parts of a value; a value whose numbers fit.
* `Within` — a source with a bound on its levels.
* `Measures` — a reader that gives something measured by the levels of what it is given to read.

## Main results

* `within_value` — a value is within as many levels as it has.
* `measures_list`, `measures_record`, `within_of_readTagged` — how lists, records and tagged values
  are measured.
-/

namespace Marshal
namespace Data

/-! ### The depth of a value -/

namespace Value

theorem depthItems_le {items : List Value} {n : Nat} :
    depthItems items ≤ n ↔ ∀ v ∈ items, v.depth ≤ n := by
  induction items with
  | nil => simp [depthItems]
  | cons v vs ih => rw [depthItems, Nat.max_le, ih, List.forall_mem_cons]

theorem depthEntries_le {entries : List (String × Value)} {n : Nat} :
    depthEntries entries ≤ n ↔ ∀ e ∈ entries, e.2.depth ≤ n := by
  induction entries with
  | nil => simp [depthEntries]
  | cons e es ih => rw [depthEntries, Nat.max_le, ih, List.forall_mem_cons]

/-- The items of a list, the values of a table. -/
def parts : Value → List Value
  | .seq items => items
  | .map entries => entries.map Prod.snd
  | _ => []

/-- What is inside a list or table is one level less deep. -/
theorem depth_seq_le {items : List Value} {n : Nat} :
    (Value.seq items).depth ≤ n ↔ 0 < n ∧ ∀ v ∈ items, v.depth ≤ n - 1 := by
  rw [← depthItems_le, depth]
  omega

theorem depth_map_le {entries : List (String × Value)} {n : Nat} :
    (Value.map entries).depth ≤ n ↔ 0 < n ∧ ∀ e ∈ entries, e.2.depth ≤ n - 1 := by
  rw [← depthEntries_le, depth]
  omega

/-- All numbers in a value fit 64 bits. -/
inductive Words : Value → Prop where
  | mk {v : Value} (natural : ∀ n, v = .natural n → n ≤ Json.greatest64)
      (signed : ∀ i, v = .signed i → i.toNat ≤ Json.greatest64) (parts : ∀ w ∈ v.parts, Words w) :
      Words v

theorem Words.of_mem {v w : Value} (h : v.Words) (hw : w ∈ v.parts) : w.Words := by
  cases h with
  | mk _ _ parts => exact parts w hw

theorem words_seq {items : List Value} (h : ∀ v ∈ items, v.Words) : (Value.seq items).Words :=
  .mk (by simp) (by simp) h

theorem words_map {entries : List (String × Value)} (h : ∀ e ∈ entries, e.2.Words) :
    (Value.map entries).Words :=
  .mk (by simp) (by simp) (List.forall_mem_map.2 h)

end Value

/-! ### Sources with a bound on their levels -/

variable {σ : Type} [Source σ] {α S : Type}

/-- At most `n` lists and tables can be entered inside each other, and all numbers fit 64 bits. -/
inductive Within : Nat → σ → Prop where
  | mk {n : Nat} {x : σ} (count : ∀ k, readCount x = .ok k → k ≤ Json.greatest64)
      (enter : ∀ parts, Opens x parts → 0 < n)
      (parts : ∀ parts, Opens x parts → ∀ y ∈ parts, Within (n - 1) y)
      (keep : ∀ v, Source.keep x = .ok v → v.depth ≤ n ∧ v.Words) : Within n x

theorem Within.count {n : Nat} {x : σ} (h : Within n x) {k : Nat} (hk : readCount x = .ok k) :
    k ≤ Json.greatest64 := by
  cases h with
  | mk count => exact count k hk

theorem Within.enter {n : Nat} {x : σ} (h : Within n x) {parts : List σ} (hparts : Opens x parts) :
    0 < n ∧ ∀ y ∈ parts, Within (n - 1) y := by
  cases h with
  | mk _ enter inside => exact ⟨enter parts hparts, inside parts hparts⟩

theorem Within.keep {n : Nat} {x : σ} (h : Within n x) {v : Value} (hv : Source.keep x = .ok v) :
    v.depth ≤ n ∧ v.Words := by
  cases h with
  | mk _ _ _ keep => exact keep v hv

theorem opens_value {v : Value} {parts : List Value} (h : Opens v parts) :
    parts = v.parts ∧ ∀ n, v.depth ≤ n → 0 < n ∧ ∀ w ∈ parts, w.depth ≤ n - 1 := by
  cases h with
  | seq hlook =>
    have hlook := Except.ok.inj hlook
    cases v <;> simp only [Value.look, Look.seq.injEq, reduceCtorEq] at hlook
    obtain rfl := Except.ok.inj hlook
    exact ⟨rfl, fun n => Value.depth_seq_le.1⟩
  | map hlook =>
    have hlook := Except.ok.inj hlook
    cases v <;> simp only [Value.look, Look.map.injEq, reduceCtorEq] at hlook
    obtain rfl := Except.ok.inj hlook
    rw [List.map_map]
    refine ⟨rfl, fun n hn => ?_⟩
    obtain ⟨hpos, hinside⟩ := Value.depth_map_le.1 hn
    exact ⟨hpos, List.forall_mem_map.2 hinside⟩

/-- A number of things is read of a number, with or without a sign. -/
theorem look_of_readCount {x : σ} {k : Nat} (h : readCount x = .ok k) :
    Source.look x = .ok (.natural k) ∨ ∃ i : Int, Source.look x = .ok (.signed i) ∧ i.toNat = k := by
  unfold readCount at h
  obtain ⟨seen, hseen, h⟩ := bind_eq_ok.1 h
  cases seen with
  | natural n =>
    obtain rfl : n = k := Except.ok.inj h
    exact .inl hseen
  | signed i =>
    dsimp only at h
    split at h
    · exact .inr ⟨i, hseen, Except.ok.inj h⟩
    · exact absurd h (throw_ne_ok _ _)
  | _ => exact absurd h (by simp [wrongType])

theorem readCount_value {v : Value} (h : v.Words) {k : Nat} (hk : readCount v = .ok k) :
    k ≤ Json.greatest64 := by
  obtain ⟨natural, signed, -⟩ := h
  rcases look_of_readCount hk with hlook | ⟨i, hlook, rfl⟩ <;> cases v <;> cases hlook
  · exact natural _ rfl
  · exact signed i rfl

/-- A value that was put aside is within as many levels as it has. -/
theorem within_value {v : Value} (h : v.Words) {n : Nat} (hn : v.depth ≤ n) : Within n v := by
  -- the parts of a value have one level less, so the induction is on the levels
  induction n generalizing v with
  | zero =>
    refine .mk (fun k => readCount_value h) (fun parts hparts => ?_) (fun parts hparts => ?_)
      fun w hw => Except.ok.inj hw ▸ ⟨hn, h⟩
    · exact ((opens_value hparts).2 0 hn).1
    · exact absurd ((opens_value hparts).2 0 hn).1 (Nat.lt_irrefl 0)
  | succ n ih =>
    refine .mk (fun k => readCount_value h) (fun _ _ => Nat.succ_pos n) (fun parts hparts w hw => ?_)
      fun w hw => Except.ok.inj hw ▸ ⟨hn, h⟩
    obtain ⟨rfl, hdepth⟩ := opens_value hparts
    exact ih (h.of_mem hw) ((hdepth _ hn).2 w hw)

/-! ### Readers that measure -/

/-- What the reader gives is measured by the levels of what it is given to read. -/
def Measures (read : σ → Except Fault α) (P : Nat → α → Prop) : Prop :=
  ∀ n x a, Within n x → read x = .ok a → P n a

theorem measures_list {item : σ → Except Fault α} {P : Nat → α → Prop} (h : Measures item P) :
    Measures (readList item) fun n as => 0 < n ∧ ∀ a ∈ as, P (n - 1) a := by
  intro n x as hx has
  obtain ⟨parts, hparts, hitems⟩ := opens_of_readList has
  obtain ⟨hn, hinside⟩ := hx.enter hparts
  refine ⟨hn, fun a ha => ?_⟩
  obtain ⟨y, hy, hread⟩ := mem_of_mapM_eq_ok hitems ha
  exact h _ y a (hinside y hy) hread

/-- **A record takes one level, and its fields are measured by the levels that are left.** -/
theorem measures_record {I : Nat → S → Prop} {l : Layout} {start : S}
    {put : S → Nat → σ → Except Fault S} {finish : Missing → S → Except Fault α}
    {P : Nat → α → Prop} (hstart : ∀ m, I m start)
    (hput : ∀ m s i v s', Within m v → I m s → put s i v = .ok s' → I m s')
    (hfinish : ∀ m missing s a, I m s → finish missing s = .ok a → P (m + 1) a) :
    Measures (readRecord l start put finish) P := by
  intro n x a hx ha
  obtain ⟨parts, s, missing, hparts, hs, hfin⟩ := opens_of_readRecord ha
  obtain ⟨hn, hinside⟩ := hx.enter hparts
  have hI : I (n - 1) s := hs.keeps (hstart _) fun s i v s' hv => hput _ s i v s' (hinside v hv)
  rw [← Nat.sub_add_cancel hn]
  exact hfinish _ missing s a hI hfin

/-- **What belongs to a tagged value is within as many levels as the tagged value.** -/
theorem within_of_readTagged {title tag : String} {names : List String} {n : Nat} {x : σ} {i : Nat}
    {rest : Value} (hx : Within n x) (h : readTagged title tag names x = .ok (i, rest)) :
    0 < n ∧ Within n rest := by
  obtain ⟨parts, hparts, hrest⟩ := opens_of_readTagged h
  obtain ⟨hn, hinside⟩ := hx.enter hparts
  refine ⟨hn, ?_⟩
  -- whatever was put aside comes from below the tagged value, and is put in a container again
  have hkeep : ∀ v, (∃ y ∈ parts, Source.keep y = .ok v) → v.depth ≤ n - 1 ∧ v.Words := by
    rintro v ⟨y, hy, hv⟩
    exact (hinside y hy).keep hv
  cases hrest with
  | seq hitems =>
    exact within_value (Value.words_seq fun v hv => (hkeep v (hitems v hv)).2)
      (Value.depth_seq_le.2 ⟨hn, fun v hv => (hkeep v (hitems v hv)).1⟩)
  | map hentries =>
    exact within_value (Value.words_map fun e he => (hkeep e.2 (hentries e he)).2)
      (Value.depth_map_le.2 ⟨hn, fun e he => (hkeep e.2 (hentries e he)).1⟩)

end Data
end Marshal
