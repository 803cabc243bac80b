import Mathlib.Data.List.Forall2
import Marshal.Data.Kept
import Marshal.Json.Number

/-!
# Reading what shows a value

The readers take a value from whatever shows it to them.  If what they look at **shows** a value
down to its last part, what they make of it depends on the value alone, and is said here reader
by reader.  The values in question are **plain**: made of whole numbers, texts, lists and tables.

## Main definitions

* `Value.Plain` — the values in question.
* `Shows` — a source shows a value.
* `Reads` — a reader makes something of a value, from whatever source shows it.
* `Fills` — the parts of a record are taken in one after the other.

## Main results

* `reads_list`, `reads_record`, `reads_tagged` — what is made of lists, records and tagged values.
-/

namespace Marshal
namespace Data

/-! ### Plain values -/

/-- A value made of whole numbers that fit 64 bits, texts, lists and tables. -/
inductive Value.Plain : Value → Prop where
  | natural {n : Nat} (h : n ≤ Json.greatest64) : Plain (.natural n)
  | text (s : String) : Plain (.text s)
  | seq {items : List Value} (h : ∀ v ∈ items, Plain v) : Plain (.seq items)
  | map {entries : List (String × Value)} (h : ∀ e ∈ entries, Plain e.2) : Plain (.map entries)

variable {σ : Type} [Source σ] {α β : Type}

/-! ### Showing a value -/

/-- A source shows a value, down to its last part. -/
inductive Shows : σ → Value → Prop where
  | natural {x : σ} {n : Nat} (look : Source.look x = .ok (.natural n))
      (keep : Source.keep x = .ok (.natural n)) : Shows x (.natural n)
  | text {x : σ} {s : String} (look : Source.look x = .ok (.text s))
      (keep : Source.keep x = .ok (.text s))
      (choose : ∀ names, Source.choose names x = variantOf names s)
      (identify : ∀ names, Source.identify names x = variantOf names s) : Shows x (.text s)
  | seq {x : σ} {xs : List σ} {items : List Value}
      (look : Source.look x = .ok (.seq (.ok ⟨xs, none⟩)))
      (keep : Source.keep x = .ok (.seq items)) (parts : List.Forall₂ Shows xs items) :
      Shows x (.seq items)
  | map {x : σ} {xs : List σ} {entries : List (String × Value)}
      (look : Source.look x =
        .ok (.map (.ok ⟨(entries.map fun e => .ok e.1).zip xs, none⟩)))
      (keep : Source.keep x = .ok (.map entries))
      (parts : List.Forall₂ Shows xs (entries.map Prod.snd)) : Shows x (.map entries)

theorem Shows.keep_eq {x : σ} {v : Value} (h : Shows x v) : Source.keep x = .ok v := by
  cases h with
  | natural _ keep => exact keep
  | text _ keep => exact keep
  | seq _ keep => exact keep
  | map _ keep => exact keep

/-- A value that was put aside shows itself. -/
theorem shows_self {v : Value} (h : v.Plain) : Shows v v := by
  induction h with
  | natural => exact .natural rfl rfl
  | text s => exact .text rfl rfl (fun _ => rfl) fun _ => rfl
  | @seq items _ ih => exact .seq rfl rfl (List.forall₂_same.2 ih)
  | @map entries _ ih =>
    have hparts : List.Forall₂ Shows (entries.map Prod.snd) (entries.map Prod.snd) :=
      List.forall₂_same.2 (List.forall_mem_map.2 ih)
    refine .map ?_ rfl hparts
    rw [List.zip_map']
    rfl

/-- The reader makes `b` of the value `v`, from whatever source shows it. -/
def Reads (read : σ → Except Fault β) (v : Value) (b : β) : Prop :=
  ∀ x, Shows x v → read x = .ok b

theorem Reads.bind {γ : Type} {read : σ → Except Fault β} {v : Value} {b : β}
    (h : Reads read v b) {next : β → Except Fault γ} {c : γ} (hnext : next b = .ok c) :
    Reads (fun x => read x >>= next) v c := by
  intro x hx
  show (read x >>= next) = .ok c
  rw [h x hx]
  exact hnext

theorem Reads.map {γ : Type} {read : σ → Except Fault β} {v : Value} {b : β}
    (h : Reads read v b) (f : β → γ) : Reads (fun x => do return f (← read x)) v (f b) :=
  h.bind rfl

/-! ### Texts and numbers -/

theorem reads_text (wanted s : String) : Reads (readText wanted : σ → _) (.text s) s := by
  intro x hx
  cases hx with
  | text look => simp only [readText, look]; rfl

theorem reads_count (n : Nat) : Reads (readCount : σ → _) (.natural n) n := by
  intro x hx
  cases hx with
  | natural look => simp only [readCount, look]; rfl

theorem reads_choose {names : List String} {s : String} {i : Nat}
    (h : variantOf names s = .ok i) : Reads (Source.choose names : σ → _) (.text s) i := by
  intro x hx
  cases hx with
  | text _ _ choose => rw [choose, h]

theorem mapM_eq_of_forall₂ {read : σ → Except Fault β} {f : α → β} {encode : α → Value}
    {as : List α} (h : ∀ a ∈ as, Reads read (encode a) (f a)) {xs : List σ}
    (hxs : List.Forall₂ Shows xs (as.map encode)) : xs.mapM read = .ok (as.map f) := by
  induction as generalizing xs with
  | nil =>
    rw [List.map_nil, List.forall₂_nil_right_iff] at hxs
    rw [hxs]
    rfl
  | cons a as ih =>
    rw [List.map_cons, List.forall₂_cons_right_iff] at hxs
    obtain ⟨x, ys, hx, hys, rfl⟩ := hxs
    rw [List.mapM_cons, h a List.mem_cons_self x hx,
      ih (fun b hb => h b (List.mem_cons_of_mem a hb)) hys]
    rfl

/-- A list is read item by item. -/
theorem reads_list {read : σ → Except Fault β} {f : α → β} {encode : α → Value} {as : List α}
    (h : ∀ a ∈ as, Reads read (encode a) (f a)) :
    Reads (readList read) (.seq (as.map encode)) (as.map f) := by
  intro x hx
  cases hx with
  | seq look _ parts =>
    simp only [readList, look]
    show Stream.readAll read ⟨_, none⟩ = _
    simp only [Stream.readAll, mapM_eq_of_forall₂ h parts]
    rfl

/-! ### Records -/

variable {S : Type}

/-- The parts that stand in a record from place `i` on are taken in one after the other. -/
inductive Fills (put : S → Nat → σ → Except Fault S) : S → Nat → List Value → S → Prop where
  | nil {s : S} {i : Nat} : Fills put s i [] s
  | cons {s s' t : S} {i : Nat} {v : Value} {vs : List Value} (head : Reads (put s i) v s')
      (tail : Fills put s' (i + 1) vs t) : Fills put s i (v :: vs) t

theorem findIdx?_append_cons {names more : List String} {key : String} (h : key ∉ names) :
    (names ++ key :: more).findIdx? (· = key) = some names.length := by
  have hbefore : names.findIdx? (· = key) = none := by
    rw [List.findIdx?_eq_none_iff]
    intro name hname
    simpa using fun heq : name = key => h (heq ▸ hname)
  simp [List.findIdx?_append, hbefore, List.findIdx?_cons]

/-- A table that has the fields from some place on, in their order, is read field by field. -/
theorem readFields_of_fills {l : Layout} (hl : l.fields.Nodup)
    {put : S → Nat → σ → Except Fault S} {before names : List String}
    (hnames : l.fields = before ++ names) {s t : S} {values : List Value}
    (h : Fills put s before.length values t) (hlen : names.length = values.length) {seen : List Nat}
    (hseen : ∀ i ∈ seen, i < before.length) {xs : List σ} (hxs : List.Forall₂ Shows xs values) :
    readFields l put s seen ((names.map .ok).zip xs) = .ok t := by
  -- the induction is on the values that are left; `before` are the fields that have been read
  induction values generalizing before names s seen xs with
  | nil =>
    cases h
    rw [List.length_nil, List.length_eq_zero_iff] at hlen
    rw [hlen, List.map_nil, List.zip_nil_left, readFields]
  | cons v vs ih =>
    cases names with
    | nil => cases hlen
    | cons key names =>
      rw [List.forall₂_cons_right_iff] at hxs
      obtain ⟨x, ys, hx, hys, rfl⟩ := hxs
      cases h with
      | @cons _ s' _ _ _ _ head tail =>
        have hkey : key ∉ before := by
          rw [hnames, List.nodup_append] at hl
          exact fun hmem => hl.2.2 key hmem key List.mem_cons_self rfl
        have hfresh : before.length ∉ seen := fun hmem => Nat.lt_irrefl _ (hseen _ hmem)
        have hlater : ∀ i ∈ before.length :: seen, i < (before ++ [key]).length := by
          intro i hi
          rw [List.length_append, List.length_singleton]
          rcases List.mem_cons.1 hi with rfl | hi
          · exact Nat.lt_succ_self _
          · exact Nat.lt_succ_of_lt (hseen i hi)
        have hrest : readFields l put s' (before.length :: seen) ((names.map .ok).zip ys) = .ok t :=
          ih (by simp [hnames]) (by simpa using tail) (Nat.succ.inj hlen) hlater hys
        rw [List.map_cons, List.zip_cons_cons, readFields]
        simp only [bind, Except.bind, hnames, findIdx?_append_cons hkey, hfresh, if_false,
          head x hx]
        exact hrest

/-- **A record is read field by field** from a table that has its fields, in their order. -/
theorem reads_record {l : Layout} {start t : S} {put : S → Nat → σ → Except Fault S}
    {finish : Missing → S → Except Fault α} {entries : List (String × Value)} {a : α}
    (hl : l.fields.Nodup) (hnames : entries.map Prod.fst = l.fields)
    (h : Fills put start 0 (entries.map Prod.snd) t) (hfinish : finish l.missingName t = .ok a) :
    Reads (readRecord l start put finish) (.map entries) a := by
  intro x hx
  cases hx with
  | map look _ parts =>
    have hall : l.fields = [] ++ entries.map Prod.fst := hnames.symm
    have hread := readFields_of_fills hl hall h (by simp) (fun i (hi : i ∈ []) => nomatch hi) parts
    rw [List.map_map] at hread
    have hkeys : (entries.map fun e => (Except.ok e.1 : Except Fault String)) =
        entries.map (Except.ok ∘ Prod.fst) := rfl
    simp only [readRecord, look, hkeys, bind, Except.bind, hread]
    exact hfinish

/-! ### Tagged values -/

theorem foldlM_keep {tag : String} (names : List String) (i : Nat)
    {entries : List (String × Value)} (htag : ∀ e ∈ entries, e.1 ≠ tag) {xs : List σ}
    (hxs : List.Forall₂ Shows xs (entries.map Prod.snd)) (rest : List (String × Value)) :
    ((entries.map fun e => (Except.ok e.1 : Except Fault String)).zip xs).foldlM
      (fun (acc : Option Nat × List (String × Value)) (e : Except Fault String × σ) => do
        let key ← e.1
        if key = tag then
          if acc.1.isSome then throw (Fault.mismatch (.duplicateField tag))
          return (some (← Source.identify names e.2), acc.2)
        else return (acc.1, acc.2 ++ [(key, ← Source.keep e.2)]))
      (some i, rest) = .ok (some i, rest ++ entries) := by
  induction entries generalizing xs rest with
  | nil => simp; rfl
  | cons e es ih =>
    rw [List.map_cons, List.forall₂_cons_right_iff] at hxs
    obtain ⟨x, ys, hx, hys, rfl⟩ := hxs
    have hne : e.1 ≠ tag := htag e List.mem_cons_self
    have hrest := ih (fun f hf => htag f (List.mem_cons_of_mem e hf)) hys (rest ++ [e])
    rw [List.append_assoc, List.singleton_append] at hrest
    rw [List.map_cons, List.zip_cons_cons, List.foldlM_cons]
    simp only [bind, Except.bind, hne, if_false, hx.keep_eq, pure, Except.pure]
    exact hrest

/-- A tagged value whose tag comes first is read as what the tag names, and the rest of it. -/
theorem reads_tagged {title tag name : String} {names : List String} {i : Nat}
    {entries : List (String × Value)} (hname : variantOf names name = .ok i)
    (htag : ∀ e ∈ entries, e.1 ≠ tag) :
    Reads (readTagged title tag names : σ → _) (.map ((tag, .text name) :: entries))
      (i, .map entries) := by
  intro x hx
  cases hx with
  | map look _ parts =>
    rw [List.map_cons, List.forall₂_cons_right_iff] at parts
    obtain ⟨y, ys, hy, hys, rfl⟩ := parts
    cases hy with
    | text _ _ _ identify =>
      have hfold := foldlM_keep names i htag hys []
      simp only [readTagged, look]
      rw [List.map_cons, List.zip_cons_cons]
      simp only [bind, Except.bind, List.foldlM_cons, if_true, identify, hname, pure, Except.pure,
        Option.isSome_none, Bool.false_eq_true, if_false]
      simp only [bind, Except.bind, pure, Except.pure] at hfold
      rw [hfold]
      rfl

end Data
end Marshal
