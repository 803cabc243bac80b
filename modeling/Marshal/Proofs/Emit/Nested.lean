import Marshal.Emit.Code
import Mathlib.Data.List.Basic

/-!
# Blocks inside each other

A writer counts the blocks that are open, and takes care never to count below none.  Where steps
close the blocks that they open, and no others, that care is not needed: the count is at each step
the number of blocks around it, and after the last step what it was before the first.

The steps for a piece of code are of this kind, since a block of the code is written between two
braces.

## Main definitions

* `tabs` — the start of an indented line.
* `Nested` — steps that close what they open, and the lines that they are to write.

## Main results

* `Nested.run` — the writer writes these lines, and counts as many blocks after them as before.
* `Nested.lt_of_leave` — where a block is closed, one is open that these steps have opened.
* `Code.nested_stepsAll` — code closes the blocks that it opens.
-/

namespace Marshal
namespace Emit

/-- The tabs before a line that is inside so many blocks. -/
def tabs (depth : Nat) : String := String.ofList (List.replicate depth '\t')

/-- Steps that close the blocks that they open and no others, with the lines that they are to write
where `depth` blocks are around all of them: each line has a tab for every block around it. -/
inductive Nested : Nat → List Step → List String → Prop where
  | nil (depth : Nat) : Nested depth [] []
  | line {depth : Nat} (text : String) {steps : List Step} {lines : List String}
      (h : Nested depth steps lines) :
      Nested depth (.line text :: steps) ((tabs depth ++ text) :: lines)
  | block {depth : Nat} {body steps : List Step} {inner lines : List String}
      (hbody : Nested (depth + 1) body inner) (h : Nested depth steps lines) :
      Nested depth (.enter :: (body ++ .leave :: steps))
        ((tabs depth ++ "\x7b") :: (inner ++ (tabs depth ++ "\x7d") :: lines))

section

variable {depth : Nat} {steps steps' : List Step} {lines lines' : List String}

theorem Nested.append (h : Nested depth steps lines) (h' : Nested depth steps' lines') :
    Nested depth (steps ++ steps') (lines ++ lines') := by
  induction h with
  | nil depth => exact h'
  | line text _ ih => exact .line text (ih h')
  | block hbody _ _ ih =>
    have hblock := Nested.block hbody (ih h')
    simpa only [List.cons_append, List.append_assoc] using hblock

/-- **The writer writes these lines**, and counts as many blocks after them as before. -/
theorem Nested.run (h : Nested depth steps lines) :
    Writer.run depth steps = (lines.map (· ++ "\n"), depth) := by
  induction h with
  | nil depth => rfl
  | line text _ ih => simp [Writer.run, Writer.put, Writer.indented, ih, tabs]
  | block _ _ ihbody ih =>
    simp [Writer.run, Writer.run_append, Writer.put, Writer.indented, ihbody, ih, tabs]

/-- **Where a block is closed, one is open** that these steps have opened: the writer counts more
blocks than there were before the first step. -/
theorem Nested.lt_of_leave (h : Nested depth steps lines) {before after : List Step}
    (hsteps : steps = before ++ .leave :: after) : depth < (Writer.run depth before).2 := by
  induction h generalizing before after with
  | nil depth => simp at hsteps
  | @line depth text steps lines _ ih =>
    rcases before with _ | ⟨s, before⟩
    · cases hsteps
    · obtain ⟨rfl, hrest⟩ := List.cons.inj hsteps
      change depth < (Writer.run depth before).2
      exact ih hrest
  | @block depth body steps inner lines hbody _ ihbody ih =>
    rcases before with _ | ⟨s, before⟩
    · cases hsteps
    obtain ⟨rfl, hrest⟩ := List.cons.inj hsteps
    change depth < (Writer.run (depth + 1) before).2
    -- the block that is closed is the outer one, or one after it, or one inside it
    have hend : (Writer.run (depth + 1) body).2 = depth + 1 := by
      rw [hbody.run]
    rcases List.append_eq_append_iff.1 hrest with ⟨more, rfl, hmore⟩ | ⟨more, rfl, hmore⟩
    · rcases more with _ | ⟨s, more⟩
      · rw [List.append_nil, hend]
        exact Nat.lt_succ_self depth
      · obtain ⟨rfl, htail⟩ := List.cons.inj hmore
        rw [Writer.run_append, hend]
        change depth < (Writer.run depth more).2
        exact ih htail
    · rcases more with _ | ⟨s, more⟩
      · rw [List.append_nil] at hend
        rw [hend]
        exact Nat.lt_succ_self depth
      · obtain ⟨rfl, -⟩ := List.cons.inj hmore
        exact Nat.lt_of_succ_lt (ihbody rfl)

end

/-- The lines have no line feed if no step is told to write one. -/
theorem Nested.newline_notMem {depth : Nat} {steps : List Step} {lines : List String}
    (h : Nested depth steps lines) (hsteps : ∀ text, .line text ∈ steps → '\n' ∉ text.toList) :
    ∀ l ∈ lines, '\n' ∉ l.toList := by
  have htabs : ∀ depth, '\n' ∉ (tabs depth).toList := by
    intro depth hmem
    rw [tabs, String.toList_ofList] at hmem
    exact absurd (List.eq_of_mem_replicate hmem) (by decide)
  have hindented : ∀ depth {text : String}, '\n' ∉ text.toList →
      '\n' ∉ (tabs depth ++ text).toList := by
    intro depth text htext
    rw [String.toList_append, List.mem_append]
    exact not_or_intro (htabs depth) htext
  induction h with
  | nil depth => simp
  | @line depth text steps lines _ ih =>
    rw [List.forall_mem_cons]
    exact ⟨hindented depth (hsteps text List.mem_cons_self),
      ih fun t ht => hsteps t (List.mem_cons_of_mem _ ht)⟩
  | @block depth body steps inner lines _ _ ihbody ih =>
    simp only [List.forall_mem_cons, List.forall_mem_append]
    refine ⟨hindented depth (by decide), ihbody fun t ht => hsteps t ?_,
      hindented depth (by decide), ih fun t ht => hsteps t ?_⟩
    · exact List.mem_cons_of_mem _ (List.mem_append_left _ ht)
    · exact List.mem_cons_of_mem _ (List.mem_append_right _ (List.mem_cons_of_mem _ ht))

namespace Code

/-- The steps between two braces. -/
theorem nested_braces {depth : Nat} {body : List Step} {inner : List String}
    (h : Nested (depth + 1) body inner) :
    Nested depth (.enter :: body ++ [.leave])
      ((tabs depth ++ "\x7b") :: inner ++ [tabs depth ++ "\x7d"]) :=
  .block h (.nil depth)

mutual

theorem nested_steps (c : Code) (depth : Nat) : ∃ lines, Nested depth c.steps lines := by
  match c with
  | .line s => exact ⟨_, .line s.spell (.nil depth)⟩
  | .block body =>
    obtain ⟨inner, hinner⟩ := nested_stepsAll body (depth + 1)
    exact ⟨_, nested_braces hinner⟩
  | .loop head body =>
    obtain ⟨inner, hinner⟩ := nested_stepsAll body (depth + 1)
    exact ⟨_, .line head.spell (nested_braces hinner)⟩

/-- **Code closes the blocks that it opens**, and no others. -/
theorem nested_stepsAll (cs : List Code) (depth : Nat) :
    ∃ lines, Nested depth (stepsAll cs) lines := by
  match cs with
  | [] => exact ⟨_, .nil depth⟩
  | c :: cs =>
    obtain ⟨first, hfirst⟩ := nested_steps c depth
    obtain ⟨rest, hrest⟩ := nested_stepsAll cs depth
    exact ⟨_, hfirst.append hrest⟩

end

end Code

end Emit
end Marshal
