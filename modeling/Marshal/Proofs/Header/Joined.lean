import Mathlib.Data.List.Basic
import Marshal.Proofs.Header.Continued

/-!
# Joining continued lines

A line that ends in a backslash goes on in the next.  A text **continues** if a backslash stands
before each of its line ends and it ends in one of them; joined, it has no line end left.  Texts
that continue can be put together, and so each of them can be joined by itself.

Here a line ends in a line feed and nothing else; a carriage return before it belongs to the line.

## Main definitions

* `physicalLines`, `joinContinued`, `logicalLines` — lines, before and after they are joined.
* `Ends` — a line that does not go on in the next.
* `Continues` — a text whose lines are all continued.

## Main results

* `Continues.splitOn_append`, `Continues.join_append` — the lines of a text that continues.
* `continues_continued` — continued code continues, whatever it was.
-/

namespace Marshal
namespace Header

/-! ### Lines -/

/-- The lines of a text; what follows the last line end is one of them. -/
def physicalLines (text : String) : List (List Char) := text.toList.splitOn '\n'

/-- A text without the line ends that a backslash stands before, and without these. -/
def joinContinued : List Char → List Char
  | '\\' :: '\n' :: cs => joinContinued cs
  | c :: cs => c :: joinContinued cs
  | [] => []

/-- The lines of a text after continued ones are joined. -/
def logicalLines (text : String) : List (List Char) := (joinContinued text.toList).splitOn '\n'

theorem splitOn_line {l : List Char} (hl : '\n' ∉ l) (rest : List Char) :
    (l ++ '\n' :: rest).splitOn '\n' = l :: rest.splitOn '\n' := by
  rw [List.splitOn_append_cons_self, List.splitOn_eq_singleton hl, List.singleton_append]

theorem splitOn_lines {ls : List (List Char)} (hls : ∀ l ∈ ls, '\n' ∉ l) (rest : List Char) :
    (ls.flatMap (· ++ ['\n']) ++ rest).splitOn '\n' = ls ++ rest.splitOn '\n' := by
  induction ls with
  | nil => rfl
  | cons l ls ih =>
    obtain ⟨hl, hls⟩ := List.forall_mem_cons.1 hls
    rw [List.flatMap_cons, List.append_assoc, List.append_assoc, List.singleton_append,
      splitOn_line hl, ih hls, List.cons_append]

/-- A line, and lines each after a line end. -/
theorem splitOn_append_flatMap {l : List Char} {ls : List (List Char)} (hl : '\n' ∉ l)
    (hls : ∀ l ∈ ls, '\n' ∉ l) : (l ++ ls.flatMap ('\n' :: ·)).splitOn '\n' = l :: ls := by
  induction ls generalizing l with
  | nil => rw [List.flatMap_nil, List.append_nil, List.splitOn_eq_singleton hl]
  | cons m ls ih =>
    obtain ⟨hm, hls⟩ := List.forall_mem_cons.1 hls
    rw [List.flatMap_cons, List.cons_append, splitOn_line hl, ih hm hls]

theorem joinContinued_of_newline_notMem {l : List Char} (hl : '\n' ∉ l) (rest : List Char) :
    joinContinued (l ++ '\\' :: '\n' :: rest) = l ++ joinContinued rest := by
  induction l with
  | nil => rw [List.nil_append, joinContinued, List.nil_append]
  | cons c l ih =>
    simp only [List.mem_cons, not_or] at hl
    rw [List.cons_append, joinContinued, ih hl.2, List.cons_append]
    rintro cs - h
    cases l with
    | nil => simp at h
    | cons d l => exact hl.2 (by simp [(List.cons.inj h).1])

/-- A line that does not go on in the next. -/
def Ends (l : List Char) : Prop := '\n' ∉ l ∧ l.getLast? ≠ some '\\'

theorem ends_nil : Ends [] := ⟨List.not_mem_nil, by decide⟩

theorem Ends.join_append {l : List Char} (hl : Ends l) (rest : List Char) :
    joinContinued (l ++ '\n' :: rest) = l ++ '\n' :: joinContinued rest := by
  obtain ⟨hl, hlast⟩ := hl
  induction l with
  | nil =>
    rw [List.nil_append, joinContinued, List.nil_append]
    simp
  | cons c l ih =>
    simp only [List.mem_cons, not_or] at hl
    rw [List.cons_append, joinContinued, ih hl.2 (getLast?_tail hlast), List.cons_append]
    rintro cs rfl h
    cases l with
    | nil => exact hlast rfl
    | cons d l => exact hl.2 (by simp [(List.cons.inj h).1])

/-- Lines that end stay as they are. -/
theorem joinContinued_lines {ls : List (List Char)} (hls : ∀ l ∈ ls, Ends l) (rest : List Char) :
    joinContinued (ls.flatMap (· ++ ['\n']) ++ rest) =
      ls.flatMap (· ++ ['\n']) ++ joinContinued rest := by
  induction ls with
  | nil => rfl
  | cons l ls ih =>
    obtain ⟨hl, hls⟩ := List.forall_mem_cons.1 hls
    have hfirst := hl.join_append (ls.flatMap (· ++ ['\n']) ++ rest)
    rw [ih hls] at hfirst
    simpa using hfirst

/-! ### Texts that continue -/

/-- A backslash stands before each line end, and there is one at the end. -/
def Continues (cs : List Char) : Prop :=
  ∃ ls : List (List Char), (∀ l ∈ ls, '\n' ∉ l) ∧ cs = ls.flatMap (· ++ ['\\', '\n'])

namespace Continues

variable {cs ds : List Char}

theorem nil : Continues [] := ⟨[], by simp, rfl⟩

theorem line {l : List Char} (hl : '\n' ∉ l) : Continues (l ++ ['\\', '\n']) :=
  ⟨[l], by simpa using hl, by simp⟩

theorem append (h : Continues cs) (h' : Continues ds) : Continues (cs ++ ds) := by
  obtain ⟨ls, hls, rfl⟩ := h
  obtain ⟨ms, hms, rfl⟩ := h'
  exact ⟨ls ++ ms, fun l hl => (List.mem_append.1 hl).elim (hls l) (hms l),
    List.flatMap_append.symm⟩

theorem flatMap {α : Type} {as : List α} {f : α → List Char} (h : ∀ a ∈ as, Continues (f a)) :
    Continues (as.flatMap f) := by
  induction as with
  | nil => exact nil
  | cons a as ih =>
    obtain ⟨ha, has⟩ := List.forall_mem_cons.1 h
    exact ha.append (ih has)

theorem splitOn_eq {ls : List (List Char)} (hls : ∀ l ∈ ls, '\n' ∉ l) (rest : List Char) :
    (ls.flatMap (· ++ ['\\', '\n']) ++ rest).splitOn '\n' =
      ls.map (· ++ ['\\']) ++ rest.splitOn '\n' := by
  have hends : ls.flatMap (· ++ ['\\', '\n']) =
      (ls.map (· ++ ['\\'])).flatMap (· ++ ['\n']) := by
    rw [List.flatMap_map]
    exact List.flatMap_congr fun l _ => by simp
  rw [hends, splitOn_lines]
  intro l hl
  obtain ⟨l, hmem, rfl⟩ := List.mem_map.1 hl
  simpa using hls l hmem

/-- The lines of a text that continues come before those of what follows. -/
theorem splitOn_append (h : Continues cs) (rest : List Char) :
    (cs ++ rest).splitOn '\n' = (cs.splitOn '\n').dropLast ++ rest.splitOn '\n' := by
  obtain ⟨ls, hls, rfl⟩ := h
  have hself := splitOn_eq hls []
  rw [List.append_nil, List.splitOn_nil] at hself
  rw [splitOn_eq hls, hself, List.dropLast_concat]

theorem getLast?_of_mem (h : Continues cs) {l : List Char} (hl : l ∈ (cs.splitOn '\n').dropLast) :
    l.getLast? = some '\\' := by
  obtain ⟨ls, hls, rfl⟩ := h
  have hself := splitOn_eq hls []
  rw [List.append_nil, List.splitOn_nil] at hself
  rw [hself, List.dropLast_concat] at hl
  obtain ⟨l, -, rfl⟩ := List.mem_map.1 hl
  simp

theorem join_eq {ls : List (List Char)} (hls : ∀ l ∈ ls, '\n' ∉ l) (rest : List Char) :
    joinContinued (ls.flatMap (· ++ ['\\', '\n']) ++ rest) = ls.flatten ++ joinContinued rest := by
  induction ls with
  | nil => rfl
  | cons l ls ih =>
    obtain ⟨hl, hls⟩ := List.forall_mem_cons.1 hls
    have hfirst := joinContinued_of_newline_notMem hl (ls.flatMap (· ++ ['\\', '\n']) ++ rest)
    rw [ih hls] at hfirst
    simpa using hfirst

/-- Joined, a text that continues comes before what follows. -/
theorem join_append (h : Continues cs) (rest : List Char) :
    joinContinued (cs ++ rest) = joinContinued cs ++ joinContinued rest := by
  obtain ⟨ls, hls, rfl⟩ := h
  have hself := join_eq hls []
  rw [List.append_nil, joinContinued, List.append_nil] at hself
  rw [join_eq hls, hself]

theorem join_line {l : List Char} (hl : '\n' ∉ l) : joinContinued (l ++ ['\\', '\n']) = l := by
  rw [joinContinued_of_newline_notMem hl, joinContinued, List.append_nil]

/-- Joined, a text that continues has no line end. -/
theorem newline_notMem_join (h : Continues cs) : '\n' ∉ joinContinued cs := by
  obtain ⟨ls, hls, rfl⟩ := h
  have hself := join_eq hls []
  rw [List.append_nil, joinContinued, List.append_nil] at hself
  rw [hself]
  intro hmem
  obtain ⟨l, hl, hnew⟩ := List.mem_flatten.1 hmem
  exact hls l hl hnew

theorem join_flatMap {α : Type} {as : List α} {f : α → List Char} (h : ∀ a ∈ as, Continues (f a)) :
    joinContinued (as.flatMap f) = as.flatMap fun a => joinContinued (f a) := by
  induction as with
  | nil => rfl
  | cons a as ih =>
    obtain ⟨ha, has⟩ := List.forall_mem_cons.1 h
    rw [List.flatMap_cons, ha.join_append, ih has, List.flatMap_cons]

end Continues

theorem newline_notMem_of_mem_lines {t l : List Char} (h : l ∈ Text.lines t) : '\n' ∉ l := by
  induction t using lines_induction with
  | nil => exact absurd h (by simp)
  | last t hn hne =>
    rw [Text.lines_of_newline_notMem hne hn, List.mem_singleton] at h
    exact h ▸ hn
  | line first e rest hfirst he ih =>
    rw [he.lines hfirst] at h
    rcases List.mem_cons.1 h with rfl | h
    · exact hfirst
    · exact ih h

/-- **Continued code continues**, whatever it was. -/
theorem continues_continueLines (inComment : Bool) {ls : List (List Char)}
    (h : ∀ l ∈ ls, '\n' ∉ l) : Continues (continueLines inComment ls) := by
  induction ls generalizing inComment with
  | nil => exact .nil
  | cons l ls ih =>
    obtain ⟨hl, hls⟩ := List.forall_mem_cons.1 h
    have hclosed := newline_notMem_closeLine (if inComment then .comment else .code) l hl
    have hline := Continues.line (l := (closeLine (if inComment then .comment else .code) l).1 ++
      [' ']) (by simpa using hclosed)
    have hrest := ih (closeLine (if inComment then .comment else .code) l).2 hls
    simpa [continueLines, continuation] using hline.append hrest

theorem continues_continued (text : String) : Continues (continued text).toList := by
  rw [continued, String.toList_ofList]
  exact continues_continueLines false fun l => newline_notMem_of_mem_lines

end Header
end Marshal
