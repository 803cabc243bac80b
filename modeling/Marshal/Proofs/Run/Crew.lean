import Mathlib.Data.List.Perm.Basic
import Mathlib.Logic.Relation

/-!
# Workers that take turns in any order

Each worker of a **crew** has a queue of its own, something it keeps to itself, and the results it
has come to; all of them share one state.  At every step some worker deals with the next item of
its queue.  Nothing is said about which worker that is, so a run of a crew is any interleaving of
what its workers do.

If what comes of an item depends on the item alone, every interleaving ends with the same results,
worker by worker, and deals with every item once.

## Main definitions

* `Worker`, `Crew`, `Crew.Step`, `Crew.Runs` — workers and what they do.
* `Crew.results` — the results, worker after worker.
* `Crew.inTurn` — the workers one after the other.

## Main results

* `Crew.Step.expected`, `Crew.Step.items` — what one step keeps.
* `Crew.Runs.results` — what a finished run comes to.
* `Crew.Runs.forall_results` — what holds of all results of a run.
* `Crew.Runs.forall₂_results` — one result for each item, where it depends on what is shared.
* `Crew.runs_start` — every crew can finish.
-/

namespace Marshal
namespace Run

/-- A worker. -/
structure Worker (κ α β : Type) where
  /-- What it keeps to itself. -/
  own : κ
  /-- What it still has to deal with. -/
  queue : List α
  /-- What came of the items it has dealt with. -/
  done : List β

/-- Workers that share a state. -/
structure Crew (σ κ α β : Type) where
  /-- What the workers share. -/
  shared : σ
  /-- The workers. -/
  workers : List (Worker κ α β)
  /-- The items that were dealt with, in the order in which that happened. -/
  taken : List α

namespace Crew

variable {σ κ α β : Type}

/-- A crew that has not begun. -/
def start (shared : σ) (own : κ) (queues : List (List α)) : Crew σ κ α β :=
  ⟨shared, queues.map fun q => ⟨own, q, []⟩, []⟩

/-- Nothing is left to deal with. -/
def IsFinished (c : Crew σ κ α β) : Prop := ∀ w ∈ c.workers, w.queue = []

/-- The results, worker after worker. -/
def results (c : Crew σ κ α β) : List β := c.workers.flatMap (·.done)

/-- How one item is dealt with, given what is shared and what the worker keeps to itself. -/
abbrev Deal (σ κ α β : Type) := σ → κ → α → σ × κ × β

/-- Some worker deals with the next item of its queue. -/
inductive Step (deal : Deal σ κ α β) : Crew σ κ α β → Crew σ κ α β → Prop
  | next {s s' : σ} {before after : List (Worker κ α β)} {k k' : κ} {a : α} {queue : List α}
      {done : List β} {b : β} {taken : List α} (h : deal s k a = (s', k', b)) :
      Step deal ⟨s, before ++ ⟨k, a :: queue, done⟩ :: after, taken⟩
        ⟨s', before ++ ⟨k', queue, done ++ [b]⟩ :: after, taken ++ [a]⟩

/-- Any number of steps. -/
def Runs (deal : Deal σ κ α β) : Crew σ κ α β → Crew σ κ α β → Prop :=
  Relation.ReflTransGen (Step deal)

variable {deal : Deal σ κ α β} {c d : Crew σ κ α β}

/-! ### What comes of the items -/

/-- The results of each worker, if `answer` is what will come of the items that are left. -/
def expected (answer : α → β) (c : Crew σ κ α β) : List (List β) :=
  c.workers.map fun w => w.done ++ w.queue.map answer

/-- **A step brings no worker to other results than it was bound for.** -/
theorem Step.expected {answer : α → β} (hanswer : ∀ s k a, (deal s k a).2.2 = answer a)
    (h : Step deal c d) : d.expected answer = c.expected answer := by
  cases h with
  | @next s s' before after k k' a queue done b taken h =>
    obtain rfl : b = answer a := by rw [← hanswer s k a, h]
    simp [Crew.expected]

/-- The items dealt with, and those that are left. -/
def items (c : Crew σ κ α β) : List α := c.taken ++ c.workers.flatMap (·.queue)

theorem items_start (s : σ) (k : κ) (queues : List (List α)) :
    (start s k queues : Crew σ κ α β).items = queues.flatten := by
  simp [items, start, List.flatMap_map]

/-- **A step neither loses an item nor deals with one twice.** -/
theorem Step.items (h : Step deal c d) : d.items.Perm c.items := by
  cases h with
  | @next s s' before after k k' a queue done b taken h =>
    simp only [Crew.items, List.flatMap_append, List.flatMap_cons, List.append_assoc,
      List.cons_append, List.nil_append]
    exact List.Perm.append_left _ List.perm_middle.symm

theorem Runs.expected {answer : α → β} (hanswer : ∀ s k a, (deal s k a).2.2 = answer a)
    (h : Runs deal c d) : d.expected answer = c.expected answer := by
  induction h with
  | refl => rfl
  | tail _ hstep ih => exact (hstep.expected hanswer).trans ih

theorem Runs.items (h : Runs deal c d) : d.items.Perm c.items := by
  induction h with
  | refl => exact List.Perm.refl _
  | tail _ hstep ih => exact hstep.items.trans ih

theorem IsFinished.results (h : d.IsFinished) (answer : α → β) :
    d.results = (d.expected answer).flatten := by
  unfold Crew.results Crew.expected
  rw [← List.flatMap_def]
  refine List.flatMap_congr fun w hw => ?_
  simp [h w hw]

theorem IsFinished.items (h : d.IsFinished) : d.items = d.taken := by
  have hnone : d.workers.flatMap (·.queue) = [] := List.flatMap_eq_nil_iff.2 h
  rw [Crew.items, hnone, List.append_nil]

/-- **However the workers take turns, a finished crew has the results of dealing with item after
item**, and has dealt with every item once. -/
theorem Runs.results {answer : α → β} (hanswer : ∀ s k a, (deal s k a).2.2 = answer a)
    {s : σ} {k : κ} {queues : List (List α)} (h : Runs deal (start s k queues) d)
    (hd : d.IsFinished) :
    d.results = queues.flatten.map answer ∧ d.taken.Perm queues.flatten := by
  constructor
  · rw [hd.results answer, h.expected hanswer]
    simp [Crew.expected, start, List.map_flatten, Function.comp_def]
  · have hitems := h.items
    rwa [hd.items, items_start] at hitems

/-! ### What holds of all results -/

section

variable {P : α → Prop} {inv : σ → β → Prop}

/-- If every item gives a result of a kind, and makes no other result lose it, then after a step all
results are of that kind if they were before. -/
theorem Step.forall_results (hnew : ∀ s k a, P a → inv (deal s k a).1 (deal s k a).2.2)
    (hold : ∀ s k a b, P a → inv s b → inv (deal s k a).1 b) (h : Step deal c d)
    (hitems : ∀ a ∈ c.items, P a) (hc : ∀ b ∈ c.results, inv c.shared b) :
    ∀ b ∈ d.results, inv d.shared b := by
  cases h with
  | @next s s' before after k k' a queue done b taken h =>
    have ha : P a := hitems a (by simp [Crew.items])
    have hbnew := hnew s k a ha
    have hbold := hold s k a
    rw [h] at hbnew
    simp only [h] at hbold
    intro b' hb'
    simp only [Crew.results, List.flatMap_append, List.flatMap_cons, List.mem_append,
      List.mem_singleton] at hb' hc
    rcases hb' with hb' | (hb' | rfl) | hb'
    · exact hbold b' ha (hc b' (.inl hb'))
    · exact hbold b' ha (hc b' (.inr (.inl hb')))
    · exact hbnew
    · exact hbold b' ha (hc b' (.inr (.inr hb')))

/-- **What holds of each result when it comes, and is kept when others come, holds of all.** -/
theorem Runs.forall_results (hnew : ∀ s k a, P a → inv (deal s k a).1 (deal s k a).2.2)
    (hold : ∀ s k a b, P a → inv s b → inv (deal s k a).1 b) {s : σ} {k : κ}
    {queues : List (List α)} (h : Runs deal (start s k queues) d)
    (hqueues : ∀ a ∈ queues.flatten, P a) : ∀ b ∈ d.results, inv d.shared b := by
  induction h with
  | refl =>
    intro b hb
    simp [Crew.results, start] at hb
  | @tail c d hruns hstep ih =>
    refine hstep.forall_results hnew hold (fun a ha => hqueues a ?_) ih
    rw [← items_start s k queues]
    exact (Runs.items hruns).mem_iff.1 ha

end

/-! ### Results that depend on what is shared -/

section

variable {R : α → β → Prop}

/-- The worker began with the queue: it has dealt with the first items, each of which is related to
what came of it, and the others are left. -/
def Follows (R : α → β → Prop) (w : Worker κ α β) (queue : List α) : Prop :=
  ∃ past, queue = past ++ w.queue ∧ List.Forall₂ R past w.done

/-- **After a step every worker has results of the items it began with**, if it had before. -/
theorem Step.follows (hR : ∀ s k a, R a (deal s k a).2.2) (h : Step deal c d)
    {queues : List (List α)} (hc : List.Forall₂ (Follows R) c.workers queues) :
    List.Forall₂ (Follows R) d.workers queues := by
  cases h with
  | @next s s' before after k k' a queue done b taken h =>
    -- the workers before the one that takes its turn stay as they are
    induction before generalizing queues with
    | nil =>
      cases hc with
      | @cons _ q _ qs hfirst hrest =>
        obtain ⟨past, rfl, hpast⟩ := hfirst
        refine .cons ⟨past ++ [a], by simp, ?_⟩ hrest
        have hb : R a b := by rw [show b = (deal s k a).2.2 by rw [h]]; exact hR s k a
        exact List.rel_append hpast (.cons hb .nil)
    | cons w before ih =>
      cases hc with
      | cons hfirst hrest => exact .cons hfirst (ih hrest)

theorem Runs.follows (hR : ∀ s k a, R a (deal s k a).2.2) {s : σ} {k : κ}
    {queues : List (List α)} (h : Runs deal (start s k queues) d) :
    List.Forall₂ (Follows R) d.workers queues := by
  induction h with
  | refl =>
    rw [start, List.forall₂_map_left_iff, List.forall₂_same]
    exact fun q _ => ⟨[], rfl, .nil⟩
  | tail _ hstep ih => exact hstep.follows hR ih

/-- **However the workers take turns, a finished crew has one result for each item, in order**, and
it is one that may come of the item. -/
theorem Runs.forall₂_results (hR : ∀ s k a, R a (deal s k a).2.2) {s : σ} {k : κ}
    {queues : List (List α)} (h : Runs deal (start s k queues) d) (hd : d.IsFinished) :
    List.Forall₂ R queues.flatten d.results := by
  have hworkers : List.Forall₂ (fun w q => List.Forall₂ R q w.done) d.workers queues := by
    refine ((List.forall₂_and_left _ _).2 ⟨hd, h.follows hR⟩).imp fun w q hw => ?_
    obtain ⟨hdone, past, rfl, hpast⟩ := hw
    rwa [hdone, List.append_nil]
  rw [Crew.results, List.flatMap_def]
  -- what holds queue by queue holds of the queues put together
  refine List.rel_flatten ?_
  rw [List.forall₂_map_right_iff]
  exact hworkers.flip

end

/-! ### One worker after the other -/

/-- Deal with all items of a queue. -/
def dealAll (deal : Deal σ κ α β) : σ → κ → List α → σ × κ × List β
  | s, k, [] => (s, k, [])
  | s, k, a :: queue =>
      let (s, k, b) := deal s k a
      let (s, k, bs) := dealAll deal s k queue
      (s, k, b :: bs)

/-- Deal with all items of all queues, one queue after the other. -/
def inTurn (deal : Deal σ κ α β) (k : κ) : σ → List (List α) → σ × List (Worker κ α β)
  | s, [] => (s, [])
  | s, queue :: queues =>
      let (s, k', bs) := dealAll deal s k queue
      let (s, workers) := inTurn deal k s queues
      (s, ⟨k', [], bs⟩ :: workers)

theorem runs_dealAll (deal : Deal σ κ α β) (s : σ) (before after : List (Worker κ α β)) (k : κ)
    (queue : List α) (done : List β) (taken : List α) :
    Runs deal ⟨s, before ++ ⟨k, queue, done⟩ :: after, taken⟩
      ⟨(dealAll deal s k queue).1,
        before ++ ⟨(dealAll deal s k queue).2.1, [], done ++ (dealAll deal s k queue).2.2⟩ :: after,
        taken ++ queue⟩ := by
  induction queue generalizing s k done taken with
  | nil =>
    simp only [dealAll, List.append_nil]
    exact .refl
  | cons a queue ih =>
    have hrest := ih (deal s k a).1 (deal s k a).2.1 (done ++ [(deal s k a).2.2]) (taken ++ [a])
    simp only [List.append_assoc, List.singleton_append] at hrest
    exact hrest.head (.next rfl)

theorem runs_inTurn (deal : Deal σ κ α β) (s : σ) (k : κ) (before : List (Worker κ α β))
    (queues : List (List α)) (taken : List α) :
    Runs deal ⟨s, before ++ queues.map fun q => ⟨k, q, []⟩, taken⟩
      ⟨(inTurn deal k s queues).1, before ++ (inTurn deal k s queues).2,
        taken ++ queues.flatten⟩ := by
  induction queues generalizing s before taken with
  | nil =>
    simp only [inTurn, List.map_nil, List.flatten_nil, List.append_nil]
    exact .refl
  | cons queue queues ih =>
    have hfirst := runs_dealAll deal s before (queues.map fun q => ⟨k, q, []⟩) k queue [] taken
    have hrest := ih (dealAll deal s k queue).1
      (before ++ [⟨(dealAll deal s k queue).2.1, [], (dealAll deal s k queue).2.2⟩])
      (taken ++ queue)
    simp only [List.append_assoc, List.singleton_append] at hrest
    exact hfirst.trans hrest

theorem queue_of_mem_inTurn {deal : Deal σ κ α β} {k : κ} {s : σ} {queues : List (List α)}
    {w : Worker κ α β} (hw : w ∈ (inTurn deal k s queues).2) : w.queue = [] := by
  induction queues generalizing s with
  | nil => exact absurd hw (by simp [inTurn])
  | cons queue queues ih =>
    rcases List.mem_cons.1 hw with rfl | hw
    · rfl
    · exact ih hw

/-- **Every crew can finish**: its workers may take their turns one after the other, each with all
of its queue. -/
theorem runs_start (deal : Deal σ κ α β) (s : σ) (k : κ) (queues : List (List α)) :
    ∃ d, Runs deal (start s k queues) d ∧ d.IsFinished ∧ d.shared = (inTurn deal k s queues).1 ∧
      d.results = (inTurn deal k s queues).2.flatMap (·.done) :=
  ⟨_, runs_inTurn deal s k [] queues [], fun _ hw => queue_of_mem_inTurn hw, rfl, rfl⟩

end Crew
end Run
end Marshal
