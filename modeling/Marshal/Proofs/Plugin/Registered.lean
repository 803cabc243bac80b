import Mathlib.Data.List.Induction
import Mathlib.Data.List.Sort
import Mathlib.Data.String.Basic
import Marshal.Plugin.Registry

/-!
# What a registry holds after some calls

For each format a registry holds the plugin of the call that **leads**: the last one among those
with the greatest priority.  A call that comes too late with too low a priority is refused and
changes nothing.  So the order of calls matters only among calls for one format with one priority.

## Main definitions

* `Call` — a call that registers a plugin.
* `Registry.after` — a registry after some calls.
* `Leads` — a call that leads among some calls.

## Main results

* `Registry.find?_run` — what one call changes.
* `Registry.find?_after` — each format has what the call that leads for it registered.
* `Registry.eq_of_find?_eq` — a registry is known by what it has for the formats.
* `Registry.registered_calls` — what a registry holds after some calls.
-/

namespace Marshal
namespace Plugin

/-! ### Calls -/

/-- A call that registers a plugin. -/
inductive Call where
  /-- With a priority. -/
  | register (plugin : Plugin) (priority : Nat)
  /-- With the priority of the plugin. -/
  | registerPlugin (plugin : Plugin)

namespace Call

/-- The plugin that is to be registered. -/
def plugin : Call → Plugin
  | register plugin _ => plugin
  | registerPlugin plugin => plugin

/-- The priority it is to be registered with. -/
def priority : Call → Nat
  | register _ priority => priority
  | registerPlugin plugin => plugin.priority

/-- The format it is to be registered for. -/
def format (c : Call) : String := c.plugin.format

/-- What the registry holds if the call is accepted. -/
def entry (c : Call) : Registered := ⟨c.format, c.plugin, c.priority⟩

/-- The answer to a call, and the registry after it. -/
def run (r : Registry) : Call → Bool × Registry
  | register plugin priority => r.register plugin priority
  | registerPlugin plugin => r.registerPlugin plugin

theorem run_eq (r : Registry) (c : Call) :
    c.run r = if r.admits c.format c.priority then (true, ⟨Registry.insert c.entry r.entries⟩)
      else (false, r) := by
  cases c <;> rfl

end Call

/-- A call leads among some calls if none for its format has a greater priority, and none after it
has the same. -/
def Leads (calls : List Call) (c : Call) : Prop :=
  ∃ earlier later, calls = earlier ++ c :: later ∧
    (∀ d ∈ earlier, d.format = c.format → d.priority ≤ c.priority) ∧
    ∀ d ∈ later, d.format = c.format → d.priority < c.priority

section

variable {calls calls' : List Call} {c d : Call}

theorem Leads.mem (h : Leads calls c) : c ∈ calls := by
  obtain ⟨earlier, later, rfl, -, -⟩ := h
  exact List.mem_append_right _ List.mem_cons_self

/-- The call that leads has the greatest priority. -/
theorem Leads.le (h : Leads calls c) (hd : d ∈ calls) (hformat : d.format = c.format) :
    d.priority ≤ c.priority := by
  obtain ⟨earlier, later, rfl, hearlier, hlater⟩ := h
  rcases List.mem_append.1 hd with hd | hd
  · exact hearlier d hd hformat
  · rcases List.mem_cons.1 hd with rfl | hd
    · exact Nat.le_refl _
    · exact Nat.le_of_lt (hlater d hd hformat)

theorem leads_singleton : Leads [d] c ↔ c = d := by
  constructor
  · intro h
    exact List.mem_singleton.1 h.mem
  · rintro rfl
    exact ⟨[], [], rfl, by simp, by simp⟩

/-- A call leads if it leads among the first calls and the others are lower, or it leads among the
others and the first are not higher. -/
theorem leads_append (xs ys : List Call) :
    Leads (xs ++ ys) c ↔
      (Leads xs c ∧ ∀ d ∈ ys, d.format = c.format → d.priority < c.priority) ∨
      ((∀ d ∈ xs, d.format = c.format → d.priority ≤ c.priority) ∧ Leads ys c) := by
  constructor
  · rintro ⟨earlier, later, heq, hearlier, hlater⟩
    rcases List.append_eq_append_iff.1 heq with ⟨as, rfl, rfl⟩ | ⟨bs, rfl, hbs⟩
    · exact .inr ⟨fun d hd => hearlier d (List.mem_append_left _ hd), as, later, rfl,
        fun d hd => hearlier d (List.mem_append_right _ hd), hlater⟩
    · cases bs with
      | nil =>
        obtain rfl : c :: later = ys := hbs
        exact .inr ⟨fun d hd => hearlier d (by simpa using hd), [], later, rfl, by simp, hlater⟩
      | cons b bs =>
        obtain ⟨rfl, rfl⟩ := List.cons.inj hbs
        exact .inl ⟨⟨earlier, bs, rfl, hearlier, fun d hd => hlater d (List.mem_append_left _ hd)⟩,
          fun d hd => hlater d (List.mem_append_right _ hd)⟩
  · rintro (⟨⟨earlier, later, rfl, hearlier, hlater⟩, hys⟩ |
      ⟨hxs, earlier, later, rfl, hearlier, hlater⟩)
    · refine ⟨earlier, later ++ ys, by simp, hearlier, fun d hd => ?_⟩
      exact (List.mem_append.1 hd).elim (hlater d) (hys d)
    · refine ⟨xs ++ earlier, later, by simp, fun d hd => ?_, hlater⟩
      exact (List.mem_append.1 hd).elim (hxs d) (hearlier d)

/-- Where there is a call for a format, one leads. -/
theorem exists_leads (hc : c ∈ calls) : ∃ d, Leads calls d ∧ d.format = c.format := by
  induction calls using List.reverseRecOn generalizing c with
  | nil => exact absurd hc List.not_mem_nil
  | append_singleton calls e ih =>
    by_cases h : e.format = c.format ∧ ∀ d ∈ calls, d.format = e.format → d.priority ≤ e.priority
    · exact ⟨e, (leads_append _ _).2 (.inr ⟨h.2, leads_singleton.2 rfl⟩), h.1⟩
    · -- some call before the last one is for the format, and higher if the last one is too
      obtain ⟨d, hd, hdc, hlt⟩ : ∃ d ∈ calls, d.format = c.format ∧
          (e.format = c.format → e.priority < d.priority) := by
        by_cases he : e.format = c.format
        · obtain ⟨d, hd, hde, hlt⟩ : ∃ d ∈ calls, d.format = e.format ∧ e.priority < d.priority := by
            by_contra hnone
            refine h ⟨he, fun d hd hde => Nat.le_of_not_lt fun hlt => hnone ⟨d, hd, hde, hlt⟩⟩
          exact ⟨d, hd, hde.trans he, fun _ => hlt⟩
        · rcases List.mem_append.1 hc with hc | hc
          · exact ⟨c, hc, rfl, fun heq => absurd heq he⟩
          · exact absurd (congrArg Call.format (List.mem_singleton.1 hc).symm) he
      obtain ⟨l, hl, hld⟩ := ih hd
      refine ⟨l, (leads_append _ _).2 (.inl ⟨hl, fun x hx hxl => ?_⟩), hld.trans hdc⟩
      obtain rfl := List.mem_singleton.1 hx
      exact Nat.lt_of_lt_of_le (hlt (hxl.trans (hld.trans hdc))) (hl.le hd hld.symm)

/-- Among calls that differ in format or priority, the one with the greatest priority leads. -/
theorem leads_iff_of_pairwise
    (h : calls.Pairwise fun c d => c.format = d.format → c.priority ≠ d.priority) :
    Leads calls c ↔ c ∈ calls ∧ ∀ d ∈ calls, d.format = c.format → d.priority ≤ c.priority := by
  constructor
  · exact fun hc => ⟨hc.mem, fun d hd => hc.le hd⟩
  · rintro ⟨hc, hle⟩
    obtain ⟨earlier, later, rfl⟩ := List.append_of_mem hc
    refine ⟨earlier, later, rfl, fun d hd => hle d (List.mem_append_left _ hd), fun d hd hformat => ?_⟩
    have hne := (List.pairwise_cons.1 (List.pairwise_append.1 h).2.1).1 d hd hformat.symm
    exact Nat.lt_of_le_of_ne (hle d (by simp [hd]) hformat) (Ne.symm hne)

/-- Which call leads does not depend on the order of calls that differ in format or priority,
whatever came before them. -/
theorem leads_append_perm (earlier : List Call) (hperm : calls.Perm calls')
    (h : calls.Pairwise fun c d => c.format = d.format → c.priority ≠ d.priority) :
    Leads (earlier ++ calls) c ↔ Leads (earlier ++ calls') c := by
  have h' : calls'.Pairwise fun c d => c.format = d.format → c.priority ≠ d.priority :=
    (hperm.pairwise_iff fun hcd heq => (hcd heq.symm).symm).1 h
  rw [leads_append, leads_append, leads_iff_of_pairwise h, leads_iff_of_pairwise h']
  simp only [hperm.mem_iff]

end

namespace Registry

/-! ### One call -/

theorem find?_insert (e : Registered) (entries : List Registered) (name : String) :
    find? ⟨insert e entries⟩ name = if e.name = name then some e else find? ⟨entries⟩ name := by
  unfold find?
  induction entries with
  | nil => by_cases h : e.name = name <;> simp [insert, h]
  | cons d ds ih =>
    unfold insert
    split
    · by_cases h : e.name = name <;> simp [h]
    · split
      · rename_i hed
        by_cases h : e.name = name
        · simp [h]
        · have hd : ¬ d.name = name := hed ▸ h
          simp [h, hd]
      · rename_i hed
        by_cases hd : d.name = name
        · have he : ¬ e.name = name := fun he => hed (he.trans hd.symm)
          simp [he, hd]
        · simpa [List.find?_cons, hd] using ih

theorem admits_iff (r : Registry) (name : String) (priority : Nat) :
    r.admits name priority = true ↔ ∀ e, r.find? name = some e → e.priority ≤ priority := by
  unfold admits priorityOf?
  cases r.find? name with
  | none => simp
  | some e => simp

/-- **What one call changes**: if it is accepted, its format has what it registers; all other
formats have what they had. -/
theorem find?_run (r : Registry) (c : Call) (name : String) :
    (c.run r).2.find? name =
      if c.format = name ∧ r.admits c.format c.priority = true then some c.entry
      else r.find? name := by
  rw [Call.run_eq]
  by_cases h : r.admits c.format c.priority
  · rw [if_pos h, find?_insert]
    simp only [h, and_true]
    rfl
  · rw [if_neg h, if_neg (fun hc => h hc.2)]

/-- The entries of a registry are in the order of their names, and no name has two. -/
def Ordered (r : Registry) : Prop := r.entries.Pairwise fun d e => d.name < e.name

theorem mem_insert {e d : Registered} {entries : List Registered} (h : d ∈ insert e entries) :
    d = e ∨ d ∈ entries := by
  induction entries with
  | nil => exact .inl (List.mem_singleton.1 h)
  | cons b bs ih =>
    unfold insert at h
    split at h
    · exact List.mem_cons.1 h
    · split at h
      · exact (List.mem_cons.1 h).imp_right (List.mem_cons_of_mem b)
      · rcases List.mem_cons.1 h with rfl | h
        · exact .inr List.mem_cons_self
        · exact (ih h).imp_right (List.mem_cons_of_mem b)

theorem ordered_insert (e : Registered) {entries : List Registered} (h : Ordered ⟨entries⟩) :
    Ordered ⟨insert e entries⟩ := by
  unfold Ordered at *
  induction entries with
  | nil => exact List.pairwise_singleton _ _
  | cons d ds ih =>
    obtain ⟨hd, hds⟩ := List.pairwise_cons.1 h
    unfold insert
    split
    · rename_i hlt
      refine List.pairwise_cons.2 ⟨fun b hb => ?_, h⟩
      rcases List.mem_cons.1 hb with rfl | hb
      · exact hlt
      · exact lt_trans hlt (hd b hb)
    · rename_i hlt
      split
      · rename_i heq
        exact List.pairwise_cons.2 ⟨fun b hb => heq ▸ hd b hb, hds⟩
      · rename_i hne
        refine List.pairwise_cons.2 ⟨fun b hb => ?_, ih hds⟩
        rcases mem_insert hb with rfl | hb
        · exact lt_of_le_of_ne (not_lt.1 hlt) (Ne.symm hne)
        · exact hd b hb

theorem Ordered.run {r : Registry} (h : r.Ordered) (c : Call) : (c.run r).2.Ordered := by
  rw [Call.run_eq]
  split
  · exact ordered_insert _ h
  · exact h

/-- In an ordered registry an entry is found with its name. -/
theorem Ordered.find?_eq_some_iff {r : Registry} (h : r.Ordered) {name : String} {e : Registered} :
    r.find? name = some e ↔ e ∈ r.entries ∧ e.name = name := by
  constructor
  · exact fun he => ⟨List.mem_of_find?_eq_some he, by simpa using List.find?_some he⟩
  · rintro ⟨he, rfl⟩
    obtain ⟨before, rest, heq⟩ := List.append_of_mem he
    rw [Ordered, heq] at h
    refine List.find?_eq_some_iff_append.2 ⟨by simp, before, rest, heq, fun d hd => ?_⟩
    have hlt := (List.pairwise_append.1 h).2.2 d hd e List.mem_cons_self
    simpa using ne_of_lt hlt

/-- **A registry is known by what it has for the formats.** -/
theorem Ordered.eq_of_find?_eq {r r' : Registry} (h : r.Ordered) (h' : r'.Ordered)
    (heq : ∀ name, r.find? name = r'.find? name) : r = r' := by
  have : Std.Irrefl fun d e : Registered => d.name < e.name := ⟨fun d => lt_irrefl d.name⟩
  have : Std.Antisymm fun d e : Registered => d.name < e.name :=
    ⟨fun d e hde hed => absurd hed (lt_asymm hde)⟩
  have hentries : r.entries = r'.entries := by
    refine List.Pairwise.eq_of_mem_iff h h' fun e => ?_
    have hr : r.find? e.name = some e ↔ e ∈ r.entries := by simp [h.find?_eq_some_iff]
    have hr' : r'.find? e.name = some e ↔ e ∈ r'.entries := by simp [h'.find?_eq_some_iff]
    rw [← hr, ← hr', heq]
  cases r
  cases r'
  exact congrArg Registry.mk hentries

/-! ### All calls -/

/-- A registry after some calls. -/
def after (r : Registry) (calls : List Call) : Registry := calls.foldl (fun r c => (c.run r).2) r

section

variable {calls : List Call} {c : Call} {name : String}

theorem after_concat (r : Registry) (calls : List Call) (c : Call) :
    r.after (calls ++ [c]) = (c.run (r.after calls)).2 := by
  simp [after]

theorem ordered_after (calls : List Call) : (empty.after calls).Ordered := by
  induction calls using List.reverseRecOn with
  | nil => exact List.Pairwise.nil
  | append_singleton calls c ih =>
    rw [after_concat]
    exact ih.run c

/-- What leads for a format is what a call has to reach. -/
theorem forall_le_iff_of_leads
    (h : ∀ e, (empty.after calls).find? c.format = some e ↔
      ∃ d, Leads calls d ∧ d.format = c.format ∧ d.entry = e) :
    (empty.after calls).admits c.format c.priority = true ↔
      ∀ d ∈ calls, d.format = c.format → d.priority ≤ c.priority := by
  rw [admits_iff]
  constructor
  · intro hle d hd hformat
    obtain ⟨l, hl, hld⟩ := exists_leads hd
    have hlc := hle l.entry ((h _).2 ⟨l, hl, hld.trans hformat, rfl⟩)
    exact Nat.le_trans (hl.le hd hld.symm) hlc
  · intro hle e he
    obtain ⟨d, hd, hformat, rfl⟩ := (h e).1 he
    exact hle d hd.mem hformat

/-- **Each format has what the call that leads for it registered.** -/
theorem find?_after (calls : List Call) (name : String) (e : Registered) :
    (empty.after calls).find? name = some e ↔
      ∃ c, Leads calls c ∧ c.format = name ∧ c.entry = e := by
  induction calls using List.reverseRecOn generalizing name e with
  | nil =>
    constructor
    · intro h
      cases h
    · rintro ⟨c, hc, -⟩
      exact absurd hc.mem List.not_mem_nil
  | append_singleton calls last ih =>
    have hadmits := forall_le_iff_of_leads (fun e => ih last.format e)
    rw [after_concat, find?_run]
    simp only [leads_append, leads_singleton, List.mem_singleton, forall_eq]
    by_cases h : last.format = name ∧ (empty.after calls).admits last.format last.priority = true
    · rw [if_pos h]
      obtain ⟨rfl, hadmitted⟩ := h
      have hle := hadmits.1 hadmitted
      constructor
      · intro he
        exact ⟨last, .inr ⟨hle, rfl⟩, rfl, Option.some.inj he⟩
      · rintro ⟨c, ⟨hc, hlt⟩ | ⟨-, rfl⟩, hformat, rfl⟩
        · -- what led before would have to be higher
          exact absurd (hlt hformat.symm) (Nat.not_lt.2 (hle c hc.mem hformat))
        · rfl
    · rw [if_neg h, ih]
      constructor
      · rintro ⟨c, hc, rfl, rfl⟩
        refine ⟨c, .inl ⟨hc, fun hformat => Nat.lt_of_not_le fun hle => ?_⟩, rfl, rfl⟩
        refine h ⟨hformat, hadmits.2 fun d hd hd' => ?_⟩
        exact Nat.le_trans (hc.le hd (hd'.trans hformat)) hle
      · rintro ⟨c, ⟨hc, -⟩ | ⟨hle, rfl⟩, rfl, rfl⟩
        · exact ⟨c, hc, rfl, rfl⟩
        · exact absurd ⟨rfl, hadmits.2 hle⟩ h

/-- **A call is accepted exactly if no call for its format was higher.** -/
theorem admits_after (calls : List Call) (c : Call) :
    (empty.after calls).admits c.format c.priority = true ↔
      ∀ d ∈ calls, d.format = c.format → d.priority ≤ c.priority :=
  forall_le_iff_of_leads fun e => find?_after calls c.format e

theorem mem_names_iff (r : Registry) (name : String) :
    name ∈ r.names ↔ ∃ e, r.find? name = some e := by
  rw [← Option.isSome_iff_exists, find?, List.find?_isSome]
  simp [names]

/-- The formats of a registry are those there were calls for. -/
theorem mem_names_after (calls : List Call) (name : String) :
    name ∈ (empty.after calls).names ↔ ∃ c ∈ calls, c.format = name := by
  simp only [mem_names_iff, find?_after]
  constructor
  · rintro ⟨-, c, hc, hformat, -⟩
    exact ⟨c, hc.mem, hformat⟩
  · rintro ⟨c, hc, rfl⟩
    obtain ⟨d, hd, hformat⟩ := exists_leads hc
    exact ⟨d.entry, d, hd, hformat, rfl⟩

/-- The priority of a format is the greatest there was a call with. -/
theorem priorityOf?_after (calls : List Call) (name : String) (n : Nat) :
    (empty.after calls).priorityOf? name = some n ↔
      (∃ c ∈ calls, c.format = name ∧ c.priority = n) ∧
        ∀ c ∈ calls, c.format = name → c.priority ≤ n := by
  simp only [priorityOf?, Option.map_eq_some_iff, find?_after]
  constructor
  · rintro ⟨-, ⟨c, hc, rfl, rfl⟩, rfl⟩
    exact ⟨⟨c, hc.mem, rfl, rfl⟩, fun d hd => hc.le hd⟩
  · rintro ⟨⟨c, hc, rfl, rfl⟩, hle⟩
    obtain ⟨d, hd, hformat⟩ := exists_leads hc
    exact ⟨d.entry, ⟨d, hd, hformat, rfl⟩,
      Nat.le_antisymm (hle d hd.mem hformat) (hd.le hc hformat.symm)⟩

end

/-! ### From the beginning -/

/-- The registry that is there before any call: empty, or with the plugin for JSON routines. -/
def start (withBuiltin : Bool) : Registry := if withBuiltin then builtin else empty

/-- The calls that the registry at the beginning comes from. -/
def initial (withBuiltin : Bool) : List Call :=
  if withBuiltin then [.register (Plugin.json 0) 0] else []

theorem after_start (withBuiltin : Bool) (calls : List Call) :
    (start withBuiltin).after calls = empty.after (initial withBuiltin ++ calls) := by
  cases withBuiltin <;> rfl

/-- **What a registry holds after some calls.**  A format has the plugin of the call that leads for
it, with the greatest priority there was a call with.  A further call is accepted exactly if no call
for its format was higher; if it is refused it changes nothing, and it never changes anything for
other formats.  The formats are those there were calls for, in order, each once.  The order of
calls that differ in format or priority does not matter. -/
theorem registered_calls (withBuiltin : Bool) (calls : List Call) :
    let r := (start withBuiltin).after calls
    let seen := initial withBuiltin ++ calls
    (∀ name plugin, r.get? name = some plugin ↔
      ∃ c, Leads seen c ∧ c.format = name ∧ c.plugin = plugin) ∧
    (∀ name n, r.priorityOf? name = some n ↔
      (∃ c ∈ seen, c.format = name ∧ c.priority = n) ∧
        ∀ c ∈ seen, c.format = name → c.priority ≤ n) ∧
    (∀ c : Call,
      ((c.run r).1 = true ↔ ∀ d ∈ seen, d.format = c.format → d.priority ≤ c.priority) ∧
      ((c.run r).1 = false → (c.run r).2 = r) ∧
      ∀ name, name ≠ c.format → (c.run r).2.find? name = r.find? name) ∧
    r.names.Pairwise (· < ·) ∧
    (∀ name, name ∈ r.names ↔ ∃ c ∈ seen, c.format = name) ∧
    ∀ calls', calls.Perm calls' →
      (calls.Pairwise fun c d => c.format = d.format → c.priority ≠ d.priority) →
      (start withBuiltin).after calls' = r := by
  intro r seen
  have hr : r = empty.after seen := after_start withBuiltin calls
  have hanswer (c : Call) : (c.run r).1 = r.admits c.format c.priority := by
    rw [Call.run_eq]
    cases r.admits c.format c.priority <;> rfl
  refine ⟨fun name plugin => ?_, fun name n => ?_, fun c => ⟨?_, fun hc => ?_, fun name hname => ?_⟩,
    ?_, fun name => ?_, fun calls' hperm hdiffer => ?_⟩
  · simp only [hr, get?, Option.map_eq_some_iff, find?_after]
    constructor
    · rintro ⟨-, ⟨c, hc, hformat, rfl⟩, hplugin⟩
      exact ⟨c, hc, hformat, hplugin⟩
    · rintro ⟨c, hc, hformat, hplugin⟩
      exact ⟨c.entry, ⟨c, hc, hformat, rfl⟩, hplugin⟩
  · rw [hr, priorityOf?_after]
  · rw [hanswer, hr, admits_after]
  · rw [hanswer] at hc
    rw [Call.run_eq, hc]
    rfl
  · rw [find?_run, if_neg fun h => hname h.1.symm]
  · rw [hr]
    exact List.pairwise_map.2 (ordered_after seen)
  · rw [hr, mem_names_after]
  · rw [hr, after_start]
    refine (ordered_after _).eq_of_find?_eq (ordered_after _) fun name => ?_
    refine Option.ext fun e => ?_
    simp only [find?_after, seen, leads_append_perm (initial withBuiltin) hperm hdiffer]

/-- A plugin with one text for all nodes. -/
def constant (format text : String) : Plugin := ofNode format 7 [] fun _ _ => .ok text

/-- Calls for two formats, their priorities going up and down. -/
def contest : List Call :=
  [.register (constant "JSON" "low") 0, .register (constant "XML" "only") 3,
    .registerPlugin (constant "JSON" "high"), .register (constant "JSON" "late") 5]

theorem registered_calls_contest :
    contest.Perm contest.reverse ∧
    (contest.Pairwise fun c d => c.format = d.format → c.priority ≠ d.priority) ∧
    (start true).after contest.reverse = (start true).after contest ∧
    ((start true).after contest).priorityOf? "JSON" = some 7 ∧
    ((start true).after contest).get? "JSON" = some (constant "JSON" "high") := by
  have hperm : contest.Perm contest.reverse := (List.reverse_perm contest).symm
  have hdiffer : contest.Pairwise fun c d => c.format = d.format → c.priority ≠ d.priority := by
    decide
  obtain ⟨hget, hpriority, -, -, -, horder⟩ := registered_calls true contest
  refine ⟨hperm, hdiffer, horder _ hperm hdiffer, (hpriority _ _).2 ⟨?_, ?_⟩, (hget _ _).2 ?_⟩
  · exact ⟨.registerPlugin (constant "JSON" "high"), by simp [contest], rfl, rfl⟩
  · decide
  · refine ⟨.registerPlugin (constant "JSON" "high"), ?_, rfl, rfl⟩
    exact ⟨_ :: contest.take 2, contest.drop 3, rfl, by decide, by decide⟩

end Registry
end Plugin
end Marshal
