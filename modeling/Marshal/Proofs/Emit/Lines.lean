import Marshal.Proofs.Emit.Depth
import Marshal.Proofs.Emit.Spelled
import Marshal.Proofs.Header.Copied

/-!
# Generated code inside a macro

What stands in a macro is scanned for comments.  Keys of members may look like comments, but they
stand in literals, and each line of code is put together from pieces that the scanner copies.
So generated code has every line continued and nothing else changed, as long as the spellings that
it takes over from the source file are plain.

## Main definitions

* `Clean`, `CleanPieces`, `Code.CleanAll` — code that the scanner copies.

## Main results

* `exists_lines_run` — what is written is one line for each step.
* `generate_continued` — generated code is continued line by line.
-/

namespace Marshal
namespace Emit

open Schema Header

/-! ### Clean texts -/

/-- A part of a line that the scanner copies, and after which it is back in code. -/
structure Clean (s : String) : Prop where
  oneLine : '\n' ∉ s.toList
  copies : Copies .code s.toList .code

theorem Clean.append {s s' : String} (h : Clean s) (h' : Clean s') : Clean (s ++ s') where
  oneLine := by simp [h.oneLine, h'.oneLine]
  copies := by
    rw [String.toList_append]
    exact h.copies.append h'.copies

theorem clean_of_plain {s : String} (h : PlainSpelling s) : Clean s where
  oneLine := fun hmem => absurd (h _ hmem) (by decide)
  copies := by
    rw [← List.flatMap_singleton' s.toList]
    refine Copies.flatMap fun c hc => copies_char ?_ ?_ ?_ <;>
      rintro rfl <;> exact absurd (h _ hc) (by decide)

/-- **A key is clean in a literal**, whatever it looks like. -/
theorem clean_literal (text : String) : Clean (literal text) where
  oneLine := newline_notMem_literal text
  copies := copies_literal text

instance : Compositional Clean where
  append := Clean.append
  plain := clean_of_plain
  literal := clean_literal
  formatCall := ⟨by decide, fun _ => rfl⟩
  truthValues := ⟨by decide, fun _ => rfl⟩
  isTrue := ⟨by decide, fun _ => rfl⟩
  -- a slash before a blank does not start a comment
  division := ⟨by decide, fun _ => rfl⟩

/-! ### Clean pieces -/

/-- Pieces of a line that are all clean. -/
def CleanPieces (ps : List Piece) : Prop := ∀ p ∈ ps, Clean p.spell

theorem CleanPieces.spellAll {ps : List Piece} (h : CleanPieces ps) : Clean (spellAll ps) :=
  AllPieces.spellAll h

/-! ### Clean code -/

namespace Code

mutual

/-- All lines of a piece of code are clean. -/
def Clean : Code → Prop
  | .line s => CleanPieces s.pieces
  | .block body => CleanAll body
  | .loop head body => CleanPieces head.pieces ∧ CleanAll body

/-- All lines of pieces of code are clean. -/
def CleanAll : List Code → Prop
  | [] => True
  | c :: cs => c.Clean ∧ CleanAll cs

end

mutual

theorem clean_of_linesHave {c : Code} (h : c.LinesHave Emit.Clean) : c.Clean := by
  match c with
  | .line _ => exact h
  | .block _ => exact cleanAll_of_allLines h
  | .loop _ _ => exact ⟨h.1, cleanAll_of_allLines h.2⟩

/-- Code is clean if its lines are. -/
theorem cleanAll_of_allLines {cs : List Code} (h : AllLines Emit.Clean cs) : CleanAll cs := by
  match cs with
  | [] => trivial
  | c :: cs => exact ⟨clean_of_linesHave h.1, cleanAll_of_allLines h.2⟩

end

end Code

/-! ### Lines that are written -/

/-- The last character of a line is that of the text at its end. -/
theorem getLast?_append (s : String) {text : String} {c : Char}
    (h : text.toList.getLast? = some c) : (s ++ text).toList.getLast? = some c := by
  rw [String.toList_append, List.getLast?_append, h, Option.some_or]

theorem Statement.getLast?_spell (s : Statement) : s.spell.toList.getLast? = some ';' := by
  cases s with
  | store sink value =>
    cases sink <;> exact getLast?_append _ (by decide)
  | _ => exact getLast?_append _ (by decide)

theorem LoopHead.getLast?_spell (head : LoopHead) : head.spell.toList.getLast? = some ')' := by
  cases head <;> exact getLast?_append _ (by decide)

theorem Clean.copied {s : String} (h : Clean s) {c : Char} (hlast : s.toList.getLast? = some c)
    (hc : c ≠ '\r') : CopiedLine s.toList where
  oneLine := h.oneLine
  noReturn := by simpa [hlast] using hc
  copies := h.copies

theorem Statement.copied_spell {s : Statement} (h : CleanPieces s.pieces) :
    CopiedLine s.spell.toList :=
  (s.spell_eq ▸ h.spellAll : Clean s.spell).copied s.getLast?_spell (by decide)

theorem LoopHead.copied_spell {head : LoopHead} (h : CleanPieces head.pieces) :
    CopiedLine head.spell.toList :=
  (head.spell_eq ▸ h.spellAll : Clean head.spell).copied head.getLast?_spell (by decide)

/-- The line that a step writes is copied. -/
def Step.IsCopied : Step → Prop
  | .line text => CopiedLine text.toList
  | .blank | .enter | .leave => True

/-- The lines between braces, and the braces. -/
theorem copied_braces {steps : List Step} (h : ∀ st ∈ steps, st.IsCopied) :
    ∀ st ∈ .enter :: steps ++ [.leave], st.IsCopied := by
  rw [List.cons_append, List.forall_mem_cons, List.forall_mem_append, List.forall_mem_singleton]
  exact ⟨trivial, h, trivial⟩

mutual

theorem copied_steps {c : Code} (h : c.Clean) : ∀ st ∈ c.steps, st.IsCopied := by
  match c with
  | .line s => exact List.forall_mem_singleton.2 (Statement.copied_spell h)
  | .block body => exact copied_braces (copied_stepsAll h)
  | .loop head body =>
    exact List.forall_mem_cons.2 ⟨LoopHead.copied_spell h.1, copied_braces (copied_stepsAll h.2)⟩

/-- Clean code is written in lines that are copied. -/
theorem copied_stepsAll {cs : List Code} (h : Code.CleanAll cs) :
    ∀ st ∈ Code.stepsAll cs, st.IsCopied := by
  match cs with
  | [] => simp [Code.stepsAll]
  | c :: cs =>
    rw [Code.stepsAll, List.forall_mem_append]
    exact ⟨copied_steps h.1, copied_stepsAll h.2⟩

end

/-- A line is indented by tabs. -/
theorem copied_indented {text : String} (h : CopiedLine text.toList) (depth : Nat) :
    CopiedLine (String.ofList (List.replicate depth '\t') ++ text).toList := by
  have htab : ∀ c ∈ List.replicate depth '\t', c = '\t' := fun c hc => List.eq_of_mem_replicate hc
  have htabs : Clean (String.ofList (List.replicate depth '\t')) := by
    refine clean_of_plain fun c hc => ?_
    rw [String.toList_ofList] at hc
    rw [htab c hc]
    decide
  have hclean := htabs.append ⟨h.oneLine, h.copies⟩
  refine ⟨hclean.oneLine, ?_, hclean.copies⟩
  rw [String.toList_append, String.toList_ofList, List.getLast?_append]
  intro hlast
  rcases Option.or_eq_some_iff.1 hlast with hlast | ⟨-, hlast⟩
  · exact h.noReturn hlast
  · exact absurd (htab _ (List.mem_of_getLast? hlast)) (by decide)

/-- Each step writes one line. -/
theorem exists_line_put {st : Step} (h : st.IsCopied) (depth : Nat) :
    ∃ l, (Writer.put depth st).1 = l ++ "\n" ∧ CopiedLine l.toList := by
  cases st with
  | line text => exact ⟨_, rfl, copied_indented h depth⟩
  | blank => exact ⟨"", rfl, ⟨List.not_mem_nil, by decide, copies_nil .code⟩⟩
  | enter =>
    have hbrace : CopiedLine "\x7b".toList := (clean_of_plain (by decide)).copied rfl (by decide)
    exact ⟨_, rfl, copied_indented hbrace depth⟩
  | leave =>
    have hbrace : CopiedLine "\x7d".toList := (clean_of_plain (by decide)).copied rfl (by decide)
    exact ⟨_, rfl, copied_indented hbrace (depth - 1)⟩

/-- **What is written is one line for each step.** -/
theorem exists_lines_run {steps : List Step} (h : ∀ st ∈ steps, st.IsCopied) (depth : Nat) :
    ∃ ls : List String, (Writer.run depth steps).1 = ls.map (· ++ "\n") ∧
      ls.length = steps.length ∧ ∀ l ∈ ls, CopiedLine l.toList := by
  induction steps generalizing depth with
  | nil => exact ⟨[], rfl, rfl, by simp⟩
  | cons st steps ih =>
    obtain ⟨hst, hsteps⟩ := List.forall_mem_cons.1 h
    obtain ⟨l, hl, hcopied⟩ := exists_line_put hst depth
    obtain ⟨ls, hls, hlength, hall⟩ := ih hsteps (Writer.put depth st).2
    refine ⟨l :: ls, ?_, congrArg (· + 1) hlength, List.forall_mem_cons.2 ⟨hcopied, hall⟩⟩
    rw [Writer.run, List.map_cons, ← hl, ← hls]

/-! ### Routines -/

/-- Routines are written in lines that are copied. -/
theorem copied_routineSteps {rs : List Routine}
    (h : ∀ r ∈ rs, CopiedLine r.signature.toList ∧ Code.CleanAll r.body) :
    ∀ st ∈ routineSteps rs, st.IsCopied := by
  induction rs with
  | nil => simp [routineSteps]
  | cons r rs ih =>
    obtain ⟨⟨hsignature, hbody⟩, hrs⟩ := List.forall_mem_cons.1 h
    have hr : ∀ st ∈ r.steps, st.IsCopied :=
      List.forall_mem_cons.2 ⟨hsignature, copied_braces (copied_stepsAll hbody)⟩
    have ih := ih hrs
    cases rs with
    | nil => simpa [routineSteps] using hr
    | cons r' rs =>
      have hsplit : routineSteps (r :: r' :: rs) =
          r.steps ++ .blank :: routineSteps (r' :: rs) := by
        simp [routineSteps]
      rw [hsplit, List.forall_mem_append, List.forall_mem_cons]
      exact ⟨hr, trivial, ih⟩

/-- The line at the start of a routine, which names a type. -/
theorem copied_signature {type : String} (htype : Clean type) {before after : String}
    (hbefore : PlainSpelling before) (hafter : PlainSpelling after)
    (hlast : after.toList.getLast? = some ')') : CopiedLine (before ++ type ++ after).toList :=
  (((clean_of_plain hbefore).append htype).append (clean_of_plain hafter)).copied
    (getLast?_append _ hlast) (by decide)

/-- The routines of a type are clean, if what they take over is. -/
theorem clean_routines {type : String} (htype : Clean type) {ms : List (Member Shape)}
    (hms : ∀ s ∈ memberSpellings ms, Clean s) :
    ∀ r ∈ routines type ms, CopiedLine r.signature.toList ∧ Code.CleanAll r.body := by
  have hroot : ∀ name, PlainSpelling name → AllPieces Clean (Place.root name).pieces :=
    fun _ hname => allPieces_root.2 (clean_of_plain hname)
  have hwrite : ∀ receiver, PlainSpelling receiver →
      Code.AllLines Clean (writeMembers (.root "objSource") (.root receiver) 0 ms) :=
    fun _ hreceiver => allLines_writeMembers (hroot _ (by decide)) (hroot _ hreceiver) 0 ms hms
  have hread : ∀ source, PlainSpelling source →
      Code.AllLines Clean (readMembers (.root "objReceiver") (.root source) 0 ms) :=
    fun _ hsource => allLines_readMembers (hroot _ (by decide)) (hroot _ hsource) 0 ms hms
  simp only [routines, List.forall_mem_cons, List.not_mem_nil, false_imp_iff, implies_true,
    and_true]
  refine ⟨⟨?_, ?_⟩, ⟨?_, ?_⟩, ⟨?_, ?_⟩, ⟨?_, ?_⟩⟩
  · exact copied_signature htype (by decide) (by decide) (by decide)
  · exact Code.cleanAll_of_allLines (hwrite _ (by decide))
  · exact copied_signature htype (by decide) (by decide) (by decide)
  · exact Code.cleanAll_of_allLines (hread _ (by decide))
  · exact copied_signature htype (by decide) (by decide) (by decide)
  · have hnew : AllPieces Clean (Statement.newDocument "jsonRep").pieces := by
      simp (disch := decide) [Statement.pieces, clean_of_plain]
    have hprint : AllPieces Clean (Statement.printDocument "jsonRep" "osReceiver").pieces := by
      simp (disch := decide) [Statement.pieces, clean_of_plain]
    have hmembers := hwrite "jsonRep" (by decide)
    exact Code.cleanAll_of_allLines
      (Code.allLines_append.2 ⟨Code.allLines_line.2 ⟨hnew, hmembers⟩, hprint, trivial⟩)
  · exact copied_signature htype (by decide) (by decide) (by decide)
  · have hparse : AllPieces Clean (Statement.parseDocument "jsonRep" "isSource").pieces := by
      simp (disch := decide) [Statement.pieces, clean_of_plain]
    exact Code.cleanAll_of_allLines (Code.allLines_line.2 ⟨hparse, hread _ (by decide)⟩)

/-- **Generated code is continued line by line.**  If the spellings that it takes over are plain,
each of its lines gets a backslash, and that is all that happens to it inside a macro, whatever the
keys of its members are.  There is one line for each line, blank line and brace that is written. -/
theorem generate_continued {g : Graph} {n : Node} {text : String} (h : generate g n = .ok text)
    (hname : PlainSpelling n.name)
    (hfields : ∀ s, Takes g (visits (flatten g n)) s → PlainSpelling s) :
    ∃ ms, ∃ ls : List String, plan g (flatten g n) = .ok ms ∧
      (Writer.run 0 (routineSteps (routines n.name ms))).1 = ls.map (· ++ "\n") ∧
      text = String.join (ls.map (· ++ "\n")) ∧
      continued text = String.join (ls.map (· ++ " \\\n")) ∧
      Text.lines (continued text).toList = ls.map (fun l => (l ++ " \\").toList) ∧
      ls.length = (routineSteps (routines n.name ms)).length := by
  obtain ⟨-, ms, hplan, rfl⟩ := generate_eq_ok.1 h
  have hsteps := copied_routineSteps (clean_routines (clean_of_plain hname) fun s hs =>
    clean_of_plain (hfields s (takes_of_plan hplan s hs)))
  obtain ⟨ls, hls, hlength, hcopied⟩ := exists_lines_run hsteps 0
  have htext : routinesText n.name ms = String.join (ls.map (· ++ "\n")) := by
    rw [routinesText, Writer.text, hls]
  refine ⟨ms, ls, hplan, hls, htext, ?_, ?_, hlength⟩
  · rw [htext, continued_join hcopied]
  · rw [htext, lines_continued_join hcopied]

/-- A text under a key that has all that is special in code. -/
def caption : Field := ⟨"caption", "\"// \\/*\n\r'", .scalar .string, "", .anyone, none⟩

/-- A plain record with the text. -/
def label : Node := ⟨"Label", .pod, [], [caption], []⟩

/-- A type with a list and a plain record, both under keys that look like comments. -/
def menu : Node :=
  ⟨"Menu", .all, [], [⟨"sizes", "/* sizes", .vector ⟨"", "", .scalar .int, "int", .anyone, none⟩,
    "", .anyone, none⟩, ⟨"label", "//", .pod, "Label", .anyone, some 1⟩], []⟩

/-- Both types. -/
def kitchen : Graph := ⟨[menu, label]⟩

/-- The plan of the type. -/
def menuPlan : List (Member Shape) :=
  [⟨[], "sizes", "/* sizes", .vector (.number "int")⟩,
    ⟨["label"], "caption", "//.\"// \\/*\n\r'", .text⟩]

theorem generate_continued_menu :
    generate kitchen menu = .ok (routinesText "Menu" menuPlan) ∧ PlainSpelling "Menu" ∧
      (∀ s, Takes kitchen (visits (flatten kitchen menu)) s → PlainSpelling s) ∧
      ∃ ls : List String, routinesText "Menu" menuPlan = String.join (ls.map (· ++ "\n")) ∧
        continued (routinesText "Menu" menuPlan) = String.join (ls.map (· ++ " \\\n")) := by
  have hmenu : flatten kitchen menu = menu.fields := by cbv
  have hlabel : flatten kitchen label = [caption] := by cbv
  have hnode : kitchen.node? 1 = some label := rfl
  have hplan : plan kitchen (flatten kitchen menu) = .ok menuPlan := by cbv
  have htext : generate kitchen menu = .ok (routinesText "Menu" menuPlan) :=
    generate_eq_ok.2 ⟨rfl, menuPlan, hplan, rfl⟩
  have hname : PlainSpelling "Menu" := by decide
  have hplain : ∀ s ∈ ["sizes", "int", "label", "caption", ""], PlainSpelling s := by decide
  have hfields : ∀ s, Takes kitchen (visits (flatten kitchen menu)) s → PlainSpelling s := by
    intro s hs
    refine hplain s ?_
    rw [hmenu] at hs
    simpa [menu, visits, takes_cons, takes_nil, Visit.spellings, Visit.inner, Visit.obstacle?,
      hnode, hlabel, caption] using hs
  obtain ⟨ms, ls, -, -, hls, hcontinued, -⟩ := generate_continued htext hname hfields
  exact ⟨htext, hname, hfields, ls, hls, hcontinued⟩

end Emit
end Marshal
