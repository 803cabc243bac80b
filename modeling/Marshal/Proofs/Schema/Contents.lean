import Mathlib.Data.List.ReduceOption
import Marshal.Proofs.Schema.Merged

/-!
# What a merged store contains

The tree of a source file holds the types of all analyses of that file, in the order they were
merged; whichever way its path is spelled, it is kept as it was spelled first.  A name stands for
what the last analysis says that knows it.  Each type of an analysis is in the store exactly once.

## Main definitions

* `treeOf?` — the tree of a path.
* `putIn` — the types that each analysis puts into the store.
* `known` — what the analyses that know a name say.

## Main results

* `treeOf?_insertTree` — the trees of paths once types are put in.
* `perm_insertTree` — putting types in adds them and nothing else.
* `contents_mergeAll` — what a merged store contains.
-/

namespace Marshal
namespace Schema

/-! ### One tree more -/

/-- The tree of a path. -/
def treeOf? (p : FilePath) (ts : List Tree) : Option Tree := ts.find? (·.source.same p)

section

variable {source p q : FilePath} {ids : List NodeId} {t : Tree} {ts : List Tree}

theorem treeOf?_cons (p : FilePath) (t : Tree) (ts : List Tree) :
    treeOf? p (t :: ts) = if t.source.same p then some t else treeOf? p ts := by
  rw [treeOf?, List.find?_cons]
  cases t.source.same p <;> rfl

theorem mem_of_treeOf? (h : treeOf? p ts = some t) : t ∈ ts := List.mem_of_find?_eq_some h

theorem same_of_treeOf? (h : treeOf? p ts = some t) : t.source.same p = true :=
  List.find?_some (p := fun t : Tree => t.source.same p) h

/-- Two spellings of one path have the same tree. -/
theorem treeOf?_congr (h : p.same q = true) (ts : List Tree) : treeOf? p ts = treeOf? q ts := by
  unfold treeOf?
  congr 1
  funext t
  rw [FilePath.same_comm, FilePath.same_comm t.source, FilePath.same_congr_left h]

/-- A path that comes before all trees has none. -/
theorem treeOf?_eq_none_of_lt (h : ∀ t ∈ ts, p.compare t.source = .lt) : treeOf? p ts = none := by
  refine List.find?_eq_none.2 fun t ht => ?_
  rw [FilePath.same_eq_false_of_compare (by rw [h t ht]; exact Ordering.noConfusion)]
  exact Bool.false_ne_true

/-- A tree is found with its own path. -/
theorem treeOf?_of_mem (h : Ordered ts) (ht : t ∈ ts) : treeOf? t.source ts = some t := by
  induction ts with
  | nil => exact absurd ht List.not_mem_nil
  | cons u ts ih =>
    obtain ⟨hfirst, hrest⟩ := List.pairwise_cons.1 h
    rw [treeOf?_cons]
    rcases List.mem_cons.1 ht with rfl | ht
    · rw [if_pos (by simp [FilePath.same])]
    · have hother : u.source.same t.source = false := by
        rw [FilePath.same_comm]
        exact FilePath.same_eq_false_of_compare (by rw [hfirst t ht]; exact Ordering.noConfusion)
      rw [hother, if_neg Bool.false_ne_true, ih hrest ht]

/-- **The trees of paths once types are put in**: the tree of their path has them at its end, under
the spelling it had, and all other paths have the trees they had. -/
theorem treeOf?_insertTree (h : Ordered ts) (source p : FilePath) (ids : List NodeId) :
    treeOf? p (insertTree source ids ts) =
      if source.same p then
        some (((treeOf? p ts).map fun t => { t with ids := t.ids ++ ids }).getD ⟨source, ids⟩)
      else treeOf? p ts := by
  induction ts with
  | nil => rw [insertTree, treeOf?_cons]; rfl
  | cons t ts ih =>
    obtain ⟨hfirst, hrest⟩ := List.pairwise_cons.1 h
    unfold insertTree
    split
    · rename_i hlt
      -- all trees come after the path
      have hnone : treeOf? source (t :: ts) = none := by
        refine treeOf?_eq_none_of_lt fun u hu => ?_
        rcases List.mem_cons.1 hu with rfl | hu
        · exact hlt
        · exact Std.TransCmp.lt_trans hlt (hfirst u hu)
      rw [treeOf?_cons]
      split
      · rename_i hp
        rw [← treeOf?_congr hp, hnone]
        rfl
      · rfl
    · rename_i heq
      rw [treeOf?_cons, treeOf?_cons,
        ← FilePath.same_congr_left (FilePath.compare_eq_eq_iff.1 heq) p]
      split <;> rfl
    · rename_i hgt
      rw [treeOf?_cons, treeOf?_cons, ih hrest]
      by_cases ht : t.source.same p
      · -- the path of the first tree is another one
        have hp : source.same p = false := by
          rw [FilePath.same_comm, ← FilePath.same_congr_left ht]
          exact FilePath.same_eq_false_of_compare (by rw [hgt]; exact Ordering.noConfusion)
        rw [if_pos ht, if_pos ht, hp]
        rfl
      · rw [if_neg ht, if_neg ht]

/-- **Putting types in adds them and nothing else.** -/
theorem perm_insertTree (source : FilePath) (ids : List NodeId) (ts : List Tree) :
    ((insertTree source ids ts).flatMap (·.ids)).Perm (ts.flatMap (·.ids) ++ ids) := by
  induction ts with
  | nil => simp [insertTree]
  | cons t ts ih =>
    unfold insertTree
    split
    · rw [List.flatMap_cons]
      exact List.perm_append_comm
    · rw [List.flatMap_cons, List.flatMap_cons, List.append_assoc, List.append_assoc]
      exact List.perm_append_comm.append_left t.ids
    · rw [List.flatMap_cons, List.flatMap_cons, List.append_assoc]
      exact ih.append_left t.ids

end

/-! ### All trees -/

/-- The types that each analysis puts into the store, by the numbers they get there. -/
def putIn (as : List Analysis) : List Tree :=
  as.mapIdx fun k a => ⟨a.source, a.tree.map (firstId as k + ·)⟩

theorem putIn_concat (as : List Analysis) (a : Analysis) :
    putIn (as ++ [a]) = putIn as ++ [⟨a.source, a.tree.map (firstId as as.length + ·)⟩] := by
  have hearlier : (as.mapIdx fun k b => (⟨b.source, b.tree.map (firstId (as ++ [a]) k + ·)⟩ : Tree)) =
      putIn as := by
    refine List.mapIdx_eq_mapIdx_iff.2 fun k hk => ?_
    rw [firstId_append_of_le (Nat.le_of_lt hk)]
  rw [putIn, List.mapIdx_concat, hearlier, firstId_append_of_le (Nat.le_refl _)]

theorem trees_mergeAll_concat (as : List Analysis) (a : Analysis) :
    (mergeAll (as ++ [a])).trees =
      insertTree a.source (a.tree.map (firstId as as.length + ·)) (mergeAll as).trees := by
  rw [mergeAll_concat, ← size_mergeAll]
  rfl

/-- The types that a list of trees holds for a path, one tree after another. -/
def gathered (p : FilePath) (ts : List Tree) : List NodeId :=
  (ts.filter (·.source.same p)).flatMap (·.ids)

theorem gathered_concat (p : FilePath) (ts : List Tree) (t : Tree) :
    gathered p (ts ++ [t]) = gathered p ts ++ if t.source.same p then t.ids else [] := by
  unfold gathered
  rw [List.filter_append, List.flatMap_append, List.filter_singleton]
  cases t.source.same p <;> simp

theorem gathered_of_treeOf?_eq_none {p : FilePath} {ts : List Tree} (h : treeOf? p ts = none) :
    gathered p ts = [] := by
  rw [gathered, List.filter_eq_nil_iff.2 (List.find?_eq_none.1 h), List.flatMap_nil]

theorem treeOf?_concat (p : FilePath) (ts : List Tree) (t : Tree) :
    treeOf? p (ts ++ [t]) = (treeOf? p ts).or (if t.source.same p then some t else none) := by
  have hlast : treeOf? p [t] = if t.source.same p then some t else none := treeOf?_cons p t []
  rw [← hlast]
  exact List.find?_append

/-- **The tree of a path** has the spelling it was put in with first, and all that was put in for
it, in this order. -/
theorem treeOf?_mergeAll (as : List Analysis) (p : FilePath) :
    treeOf? p (mergeAll as).trees =
      (treeOf? p (putIn as)).map fun t => ⟨t.source, gathered p (putIn as)⟩ := by
  induction as using List.reverseRecOn with
  | nil => rfl
  | append_singleton as a ih =>
    rw [trees_mergeAll_concat, treeOf?_insertTree (ordered_mergeAll as), ih, putIn_concat,
      treeOf?_concat, gathered_concat]
    by_cases hp : a.source.same p
    · simp only [if_pos hp]
      cases hfirst : treeOf? p (putIn as) with
      | none => rw [gathered_of_treeOf?_eq_none hfirst]; rfl
      | some t => rfl
    · simp only [if_neg hp]
      cases treeOf? p (putIn as) with
      | none => rfl
      | some t => rw [List.append_nil]; rfl

/-- **No type of an analysis is lost, and none is there twice.** -/
theorem perm_mergeAll (as : List Analysis) :
    ((mergeAll as).trees.flatMap (·.ids)).Perm ((putIn as).flatMap (·.ids)) := by
  induction as using List.reverseRecOn with
  | nil => exact List.Perm.refl _
  | append_singleton as a ih =>
    rw [trees_mergeAll_concat, putIn_concat, List.flatMap_append]
    exact (perm_insertTree _ _ _).trans (by simpa using ih.append_right _)

theorem length_flatMap_putIn (as : List Analysis) :
    ((putIn as).flatMap (·.ids)).length = (as.map (·.tree.length)).sum := by
  induction as using List.reverseRecOn with
  | nil => rfl
  | append_singleton as a ih =>
    rw [putIn_concat, List.flatMap_append, List.length_append, ih]
    simp

/-! ### Names -/

/-- What the analyses that know a name say, by the numbers in the store. -/
def known (as : List Analysis) (name : String) : List NodeId :=
  (as.mapIdx fun k a => (a.names.get? name).map (firstId as k + ·)).reduceOption

theorem known_concat (as : List Analysis) (a : Analysis) (name : String) :
    known (as ++ [a]) name =
      known as name ++ ((a.names.get? name).map (firstId as as.length + ·)).toList := by
  have hearlier : (as.mapIdx fun k b => (b.names.get? name).map (firstId (as ++ [a]) k + ·)) =
      as.mapIdx fun k b => (b.names.get? name).map (firstId as k + ·) := by
    refine List.mapIdx_eq_mapIdx_iff.2 fun k hk => ?_
    rw [firstId_append_of_le (Nat.le_of_lt hk)]
  rw [known, List.mapIdx_concat, hearlier, List.reduceOption_append,
    firstId_append_of_le (Nat.le_refl _), List.reduceOption_singleton]
  rfl

/-- **A name stands for what the last analysis says that knows it.** -/
theorem get?_mergeAll (as : List Analysis) (name : String) :
    (mergeAll as).names.get? name = (known as name).getLast? := by
  induction as using List.reverseRecOn with
  | nil => rfl
  | append_singleton as a ih =>
    rw [get?_mergeAll_concat, known_concat, ih, List.getLast?_append]
    cases a.names.get? name <;> rfl

/-! ### The whole store -/

/-- **What a merged store contains.**  The tree of a path is what the analyses of that path put in,
one after another; it is kept under the spelling that came first, and the trees are in the order of
their paths.  A name stands for what the last analysis says that knows it.  No type of an analysis
is lost or there twice, and every node is the one of its analysis, its links moved along. -/
theorem contents_mergeAll (as : List Analysis) :
    (∀ p, (mergeAll as).tree? p =
      if (putIn as).any (·.source.same p) then some (gathered p (putIn as)) else none) ∧
    (∀ t ∈ (mergeAll as).trees, (treeOf? t.source (putIn as)).map (·.source) = some t.source ∧
      t.ids = gathered t.source (putIn as)) ∧
    Ordered (mergeAll as).trees ∧
    (∀ name, (mergeAll as).nodeId? name = (known as name).getLast?) ∧
    ((mergeAll as).trees.flatMap (·.ids)).Perm ((putIn as).flatMap (·.ids)) ∧
    ((mergeAll as).trees.map (·.ids.length)).sum = (as.map (·.tree.length)).sum ∧
    ∀ (k : Fin as.length) (i : Fin as[k].graph.size),
      (mergeAll as).graph.node? (firstId as k + i) =
        (as[k].graph.node? i).map (·.mapLinks (firstId as k + ·)) := by
  have hperm := perm_mergeAll as
  refine ⟨fun p => ?_, fun t ht => ?_, ordered_mergeAll as, get?_mergeAll as, hperm, ?_,
    fun k i => node?_mergeAll (by simp) i.isLt⟩
  · show (treeOf? p (mergeAll as).trees).map (·.ids) = _
    rw [treeOf?_mergeAll]
    cases hfirst : treeOf? p (putIn as) with
    | none => simpa [treeOf?] using hfirst
    | some t =>
      have hany : (putIn as).any (·.source.same p) = true :=
        List.any_eq_true.2 ⟨t, mem_of_treeOf? hfirst, same_of_treeOf? hfirst⟩
      rw [if_pos hany]
      rfl
  · have htree := treeOf?_of_mem (ordered_mergeAll as) ht
    rw [treeOf?_mergeAll, Option.map_eq_some_iff] at htree
    obtain ⟨first, hfirst, htree⟩ := htree
    refine ⟨?_, (congrArg Tree.ids htree).symm⟩
    rw [hfirst, Option.map_some, congrArg Tree.source htree]
  · have hlength := hperm.length_eq
    rwa [length_flatMap_putIn, List.length_flatMap] at hlength

/-- Analyses of two source files, the path of one of them spelled in two ways; the last one knows
a type that is not in its tree. -/
def respelled : List Analysis :=
  let type (name : String) : Node := ⟨name, .all, [], [], []⟩
  [.ofNodes ⟨"src//Box.h"⟩ [type "Box", type "Lid"] [], .ofNodes ⟨"other.h"⟩ [type "Box"] [],
    .ofNodes ⟨"src/./Box.h"⟩ [type "Nail"] [type "Box"]]

theorem contents_mergeAll_respelled :
    (mergeAll respelled).tree? ⟨"src/Box.h/"⟩ = some [0, 1, 3] ∧
    (∃ t ∈ (mergeAll respelled).trees, t.source = ⟨"src//Box.h"⟩ ∧ t.ids = [0, 1, 3]) ∧
    (mergeAll respelled).nodeId? "Box" = some 4 ∧
    ((mergeAll respelled).trees.map (·.ids.length)).sum = 4 := by
  obtain ⟨htree, hkept, -, hname, -, hsum, -⟩ := contents_mergeAll respelled
  have htrees : (mergeAll respelled).trees = [⟨⟨"other.h"⟩, [2]⟩, ⟨⟨"src//Box.h"⟩, [0, 1, 3]⟩] := by
    rfl
  have hmem : (⟨⟨"src//Box.h"⟩, [0, 1, 3]⟩ : Tree) ∈ (mergeAll respelled).trees := by
    rw [htrees]
    exact List.mem_cons_of_mem _ List.mem_cons_self
  exact ⟨(htree _).trans (by decide +kernel),
    ⟨_, hmem, rfl, (hkept _ hmem).2.trans (by decide +kernel)⟩,
    (hname "Box").trans (by decide +kernel), hsum.trans (by decide +kernel)⟩

end Schema
end Marshal
