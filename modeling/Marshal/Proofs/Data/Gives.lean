import Marshal.Data.Source

/-!
# What readers give

A reader that gives anything has looked at its source and made what it gives of the parts it saw
there: a list of its items, a record of the fields it took in one after the other, a tagged value
of the parts it put aside.  So whatever a source shows, what is given has a certain property, and
for a record it is enough that taking in one field keeps what is known of those taken in so far.

## Main definitions

* `Opens` — the parts of a list or table that was entered.
* `TakesIn`, `Gathers` — what records and tagged values are made of.
* `Gives` — all that a reader gives has a property.

## Main results

* `opens_of_readList`, `opens_of_readRecord`, `opens_of_readTagged` — what is read is made of the
  parts that were seen.
* `gives_list`, `gives_record` — what readers of lists and records give.
-/

namespace Marshal

/-- A chain of two steps succeeds if both do, the second on what the first comes to. -/
theorem bind_eq_ok {ε α β : Type} {x : Except ε α} {f : α → Except ε β} {b : β} :
    x >>= f = .ok b ↔ ∃ a, x = .ok a ∧ f a = .ok b := by
  cases x with
  | error e => simp [bind, Except.bind]
  | ok a => simp [bind, Except.bind]

@[simp] theorem throw_ne_ok {ε α : Type} (e : ε) (a : α) : (throw e : Except ε α) ≠ .ok a := by
  simp [throw, throwThe, MonadExceptOf.throw]

namespace Data

variable {σ : Type} [Source σ] {α : Type} {S : Type}

/-! ### Parts that were seen -/

/-- Looking at `x` shows a list or table that can be entered, with these parts. -/
inductive Opens (x : σ) : List σ → Prop where
  | seq {stream : Stream σ} (h : Source.look x = .ok (.seq (.ok stream))) : Opens x stream.elements
  | map {stream : Stream (Except Fault String × σ)} (h : Source.look x = .ok (.map (.ok stream))) :
      Opens x (stream.elements.map Prod.snd)

theorem opens_of_seq {x : σ} {enter : Except Fault (Stream σ)} {stream : Stream σ}
    (h : Source.look x = .ok (.seq enter)) (henter : enter = .ok stream) :
    Opens x stream.elements := .seq (henter ▸ h)

theorem opens_of_map {x : σ} {enter : Except Fault (Stream (Except Fault String × σ))}
    {stream : Stream (Except Fault String × σ)} (h : Source.look x = .ok (.map enter))
    (henter : enter = .ok stream) : Opens x (stream.elements.map Prod.snd) := .map (henter ▸ h)

omit [Source σ] in
theorem readAll_eq_ok {item : σ → Except Fault α} {stream : Stream σ} {as : List α} :
    stream.readAll item = .ok as ↔ stream.elements.mapM item = .ok as ∧ stream.fault = none := by
  unfold Stream.readAll
  rw [bind_eq_ok]
  cases stream.fault with
  | none => simp [pure, Except.pure]
  | some f => simp

/-- A list that is read consists of what is read of its parts. -/
theorem opens_of_readList {item : σ → Except Fault α} {x : σ} {as : List α}
    (h : readList item x = .ok as) : ∃ parts, Opens x parts ∧ parts.mapM item = .ok as := by
  unfold readList at h
  obtain ⟨seen, hseen, h⟩ := bind_eq_ok.1 h
  cases seen with
  | seq enter =>
    obtain ⟨stream, henter, h⟩ := bind_eq_ok.1 h
    exact ⟨_, opens_of_seq hseen henter, (readAll_eq_ok.1 h).1⟩
  | _ => exact absurd h (by simp [wrongType])

/-! ### Records -/

/-- What has been read of a record that started as `start` and took in some of the parts. -/
inductive TakesIn (put : S → Nat → σ → Except Fault S) (parts : List σ) (start : S) : S → Prop where
  | start : TakesIn put parts start start
  | put {s s' : S} {i : Nat} {v : σ} (before : TakesIn put parts start s) (part : v ∈ parts)
      (eq : put s i v = .ok s') : TakesIn put parts start s'

section

variable {put : S → Nat → σ → Except Fault S} {parts : List σ} {start : S}

omit [Source σ] in
/-- What taking in one part keeps is known of all that is read of a record. -/
theorem TakesIn.keeps {I : S → Prop} (hstart : I start)
    (hput : ∀ s i v s', v ∈ parts → I s → put s i v = .ok s' → I s') {s : S}
    (h : TakesIn put parts start s) : I s := by
  induction h with
  | start => exact hstart
  | put _ part eq ih => exact hput _ _ _ _ part ih eq

/-- The fields of a table are taken in one after the other. -/
theorem takesIn_readFields {l : Layout} {entries : List (Except Fault String × σ)}
    (hparts : ∀ e ∈ entries, e.2 ∈ parts) {seen : List Nat} {s s' : S}
    (hs : TakesIn put parts start s) (h : readFields l put s seen entries = .ok s') :
    TakesIn put parts start s' := by
  induction entries generalizing s seen with
  | nil =>
    obtain rfl : s = s' := Except.ok.inj h
    exact hs
  | cons e entries ih =>
    obtain ⟨key, v⟩ := e
    obtain ⟨hmem, hlater⟩ := List.forall_mem_cons.1 hparts
    rw [readFields] at h
    obtain ⟨name, -, h⟩ := bind_eq_ok.1 h
    cases hi : l.fields.findIdx? (· = name) with
    | none =>
      rw [hi] at h
      obtain ⟨-, -, h⟩ := bind_eq_ok.1 h
      exact ih hlater hs h
    | some i =>
      rw [hi] at h
      by_cases hseen : i ∈ seen
      · simp [hseen, throw, throwThe, MonadExceptOf.throw, bind, Except.bind] at h
      · simp only [hseen, if_false] at h
        obtain ⟨-, -, h⟩ := bind_eq_ok.1 h
        obtain ⟨next, hnext, h⟩ := bind_eq_ok.1 h
        exact ih hlater (hs.put hmem hnext) h

omit [Source σ] in
/-- The fields of a list are taken in one after the other. -/
theorem takesIn_readPlaces {n i : Nat} {stream : Stream σ}
    (hparts : ∀ v ∈ stream.elements, v ∈ parts) {s s' : S} {taken : Nat} {rest : Stream σ}
    (hs : TakesIn put parts start s) (h : readPlaces put s i n stream = .ok (s', taken, rest)) :
    TakesIn put parts start s' := by
  induction n generalizing s i stream with
  | zero =>
    obtain ⟨rfl, -⟩ := Prod.mk.inj (Except.ok.inj h)
    exact hs
  | succ n ih =>
    obtain ⟨elements, fault⟩ := stream
    cases elements with
    | nil =>
      cases fault with
      | some f => exact absurd h (by simp [readPlaces])
      | none =>
        obtain ⟨rfl, -⟩ := Prod.mk.inj (Except.ok.inj h)
        exact hs
    | cons v vs =>
      obtain ⟨hmem, hparts⟩ := List.forall_mem_cons.1 hparts
      rw [readPlaces] at h
      obtain ⟨next, hnext, h⟩ := bind_eq_ok.1 h
      exact ih hparts (hs.put hmem hnext) h

/-- A record that is read is what its fields amount to, and these are parts that were seen. -/
theorem opens_of_readRecord {l : Layout} {finish : Missing → S → Except Fault α} {x : σ} {a : α}
    (h : readRecord l start put finish x = .ok a) :
    ∃ parts s missing, Opens x parts ∧ TakesIn put parts start s ∧ finish missing s = .ok a := by
  unfold readRecord at h
  obtain ⟨seen, hseen, h⟩ := bind_eq_ok.1 h
  cases seen with
  | map enter =>
    obtain ⟨stream, henter, h⟩ := bind_eq_ok.1 h
    obtain ⟨s, hs, h⟩ := bind_eq_ok.1 h
    refine ⟨_, s, l.missingName, opens_of_map hseen henter,
      takesIn_readFields (fun e he => List.mem_map_of_mem he) .start hs, ?_⟩
    cases hf : stream.fault with
    | some f => simp [hf, throw, throwThe, MonadExceptOf.throw, bind, Except.bind] at h
    | none =>
      rw [hf] at h
      exact h
  | seq enter =>
    obtain ⟨stream, henter, h⟩ := bind_eq_ok.1 h
    obtain ⟨⟨s, taken, rest⟩, hs, h⟩ := bind_eq_ok.1 h
    obtain ⟨b, hb, h⟩ := bind_eq_ok.1 h
    obtain ⟨-, -, h⟩ := bind_eq_ok.1 h
    obtain rfl : b = a := Except.ok.inj h
    exact ⟨_, s, l.missingPlace, opens_of_seq hseen henter,
      takesIn_readPlaces (fun v hv => hv) .start hs, hb⟩
  | _ => exact absurd h (by simp [wrongType])

end

/-! ### Tagged values -/

/-- A list or table of values that were put aside, each of them one of the parts. -/
inductive Gathers (parts : List σ) : Value → Prop where
  | seq {items : List Value} (h : ∀ v ∈ items, ∃ y ∈ parts, Source.keep y = .ok v) :
      Gathers parts (.seq items)
  | map {entries : List (String × Value)}
      (h : ∀ e ∈ entries, ∃ y ∈ parts, Source.keep y = .ok e.2) : Gathers parts (.map entries)

omit [Source σ] in
theorem mem_of_mapM_eq_ok {item : σ → Except Fault α} {xs : List σ} {as : List α}
    (h : xs.mapM item = .ok as) {a : α} (ha : a ∈ as) : ∃ x ∈ xs, item x = .ok a := by
  induction xs generalizing as with
  | nil =>
    obtain rfl : [] = as := by simpa [pure, Except.pure] using h
    cases ha
  | cons x xs ih =>
    rw [List.mapM_cons] at h
    obtain ⟨b, hb, h⟩ := bind_eq_ok.1 h
    obtain ⟨rest, hrest, h⟩ := bind_eq_ok.1 h
    obtain rfl : b :: rest = as := Except.ok.inj h
    rcases List.mem_cons.1 ha with rfl | ha
    · exact ⟨x, List.mem_cons_self, hb⟩
    · obtain ⟨y, hy, heq⟩ := ih hrest ha
      exact ⟨y, List.mem_cons_of_mem x hy, heq⟩

/-- What each step keeps, going along a list keeps. -/
theorem foldlM_keeps {β : Type} {I : β → Prop} {step : β → α → Except Fault β} {xs : List α}
    (hstep : ∀ b x b', x ∈ xs → I b → step b x = .ok b' → I b') {b b' : β} (hb : I b)
    (h : xs.foldlM step b = .ok b') : I b' := by
  induction xs generalizing b with
  | nil =>
    obtain rfl : b = b' := Except.ok.inj h
    exact hb
  | cons x xs ih =>
    rw [List.foldlM_cons] at h
    obtain ⟨c, hc, h⟩ := bind_eq_ok.1 h
    exact ih (fun b y b' hy => hstep b y b' (List.mem_cons_of_mem x hy))
      (hstep b x c List.mem_cons_self hb hc) h

/-- What belongs to a tagged value are parts that were put aside. -/
theorem opens_of_readTagged {title tag : String} {names : List String} {x : σ} {i : Nat}
    {rest : Value} (h : readTagged title tag names x = .ok (i, rest)) :
    ∃ parts, Opens x parts ∧ Gathers parts rest := by
  unfold readTagged at h
  obtain ⟨seen, hseen, h⟩ := bind_eq_ok.1 h
  cases seen with
  | map enter =>
    obtain ⟨stream, henter, h⟩ := bind_eq_ok.1 h
    refine ⟨_, opens_of_map hseen henter, ?_⟩
    obtain ⟨⟨found, entries⟩, hfold, h⟩ := bind_eq_ok.1 h
    -- all entries gathered so far are parts that were put aside
    have hkept : ∀ e ∈ entries, ∃ y ∈ stream.elements.map Prod.snd, Source.keep y = .ok e.2 := by
      refine foldlM_keeps (I := fun acc : Option Nat × List (String × Value) => ∀ e ∈ acc.2,
        ∃ y ∈ stream.elements.map Prod.snd, Source.keep y = .ok e.2) ?_ (by simp) hfold
      rintro ⟨found, gathered⟩ ⟨key, v⟩ ⟨found', gathered'⟩ hmem hgathered hstep
      obtain ⟨name, -, hstep⟩ := bind_eq_ok.1 hstep
      split at hstep
      · split at hstep
        · exact absurd hstep (by simp [throw, throwThe, MonadExceptOf.throw, bind, Except.bind])
        · obtain ⟨place, -, hstep⟩ := bind_eq_ok.1 hstep
          obtain ⟨-, rfl⟩ := Prod.mk.inj (Except.ok.inj hstep)
          exact hgathered
      · obtain ⟨kept, hkept, hstep⟩ := bind_eq_ok.1 hstep
        obtain ⟨-, rfl⟩ := Prod.mk.inj (Except.ok.inj hstep)
        intro e he
        rcases List.mem_append.1 he with he | he
        · exact hgathered e he
        · obtain rfl := List.mem_singleton.1 he
          exact ⟨v, List.mem_map_of_mem hmem, hkept⟩
    cases hf : stream.fault with
    | some f => simp [hf, throw, throwThe, MonadExceptOf.throw, bind, Except.bind] at h
    | none =>
      cases found with
      | none => simp [hf] at h
      | some place =>
        rw [hf] at h
        obtain ⟨-, rfl⟩ := Prod.mk.inj (Except.ok.inj h)
        exact .map hkept
  | seq enter =>
    obtain ⟨⟨elements, fault⟩, henter, h⟩ := bind_eq_ok.1 h
    refine ⟨_, opens_of_seq hseen henter, ?_⟩
    cases elements with
    | nil => cases fault <;> exact absurd h (by simp)
    | cons first others =>
      obtain ⟨place, -, h⟩ := bind_eq_ok.1 h
      obtain ⟨items, hitems, h⟩ := bind_eq_ok.1 h
      obtain ⟨-, rfl⟩ := Prod.mk.inj (Except.ok.inj h)
      refine .seq fun v hv => ?_
      obtain ⟨y, hy, hkeep⟩ := mem_of_mapM_eq_ok (readAll_eq_ok.1 hitems).1 hv
      exact ⟨y, List.mem_cons_of_mem first hy, hkeep⟩
  | _ => exact absurd h (by simp [wrongType])

/-! ### What readers give -/

/-- Whatever it is given to read, all that the reader gives has the property. -/
def Gives {σ : Type} (read : σ → Except Fault α) (P : α → Prop) : Prop :=
  ∀ x a, read x = .ok a → P a

theorem gives_list {item : σ → Except Fault α} {P : α → Prop} (h : Gives item P) :
    Gives (readList item) fun as => ∀ a ∈ as, P a := by
  intro x as hx a ha
  obtain ⟨parts, -, hparts⟩ := opens_of_readList hx
  obtain ⟨y, -, hy⟩ := mem_of_mapM_eq_ok hparts ha
  exact h y a hy

/-- **What is known of the start, is kept by every field, and is enough for what the fields amount
to, is known of all records that are read.** -/
theorem gives_record {I : S → Prop} {l : Layout} {start : S} {put : S → Nat → σ → Except Fault S}
    {finish : Missing → S → Except Fault α} {P : α → Prop} (hstart : I start)
    (hput : ∀ s i v s', I s → put s i v = .ok s' → I s')
    (hfinish : ∀ missing s a, I s → finish missing s = .ok a → P a) :
    Gives (readRecord l start put finish) P := by
  intro x a hx
  obtain ⟨parts, s, missing, -, hs, ha⟩ := opens_of_readRecord hx
  exact hfinish missing s a (hs.keeps hstart fun s i v s' _ => hput s i v s') ha

end Data
end Marshal
