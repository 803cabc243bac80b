import Marshal.Proofs.Emit.Nested
import Marshal.Proofs.Emit.Redirected
import Marshal.Proofs.Emit.Unbroken

/-!
# Walks that give back what they take

The walks over the fields of a type share what they write to, the indentation, and the stack of
plain records that are being written out.  Each call takes from these and gives back what it has
taken, so that nothing after it, and no other routine, can tell that it has been there.

## Main definitions

* `Direct.Emitter.text`, `Direct.Emitter.indent` — what has been written, and the indentation.
* `Direct.Restores` — what a call leaves as it was, and what it adds.
* `Direct.CallsRestore` — the calls of the walks for a field.
* `Direct.RoutinesApart` — four routines that do not depend on each other.

## Main results

* `Direct.Does.restores` — a part of a walk that writes code restores the rest.
* `Direct.callsRestore` — every call that succeeds does.
* `Direct.routinesApart` — the routines of a node do not depend on each other.
* `walks_restore` — both.
-/

namespace Marshal
namespace Emit

open Schema

/-! ### Lines of code -/

namespace Code

mutual

theorem unbroken_steps {c : Code} (h : c.LinesHave Unbroken) :
    ∀ text, .line text ∈ c.steps → Unbroken text := by
  match c with
  | .line s =>
    intro text htext
    cases List.mem_singleton.1 htext
    rw [s.spell_eq]
    exact h.spellAll
  | .block body =>
    intro text htext
    simp only [steps, List.cons_append, List.mem_cons, List.mem_append, List.not_mem_nil, or_false,
      reduceCtorEq, false_or] at htext
    exact unbroken_stepsAll h text htext
  | .loop head body =>
    intro text htext
    simp only [steps, List.cons_append, List.mem_cons, List.mem_append, List.not_mem_nil, or_false,
      reduceCtorEq, false_or, Step.line.injEq] at htext
    rcases htext with rfl | htext
    · rw [head.spell_eq]
      exact h.1.spellAll
    · exact unbroken_stepsAll h.2 text htext

/-- Lines of code have no line feeds if their pieces have none. -/
theorem unbroken_stepsAll {cs : List Code} (h : AllLines Unbroken cs) :
    ∀ text, .line text ∈ stepsAll cs → Unbroken text := by
  match cs with
  | [] =>
    intro text htext
    cases htext
  | c :: cs =>
    intro text htext
    rcases List.mem_append.1 htext with htext | htext
    · exact unbroken_steps h.1 text htext
    · exact unbroken_stepsAll h.2 text htext

end

/-- The indentation after code is that before it. -/
theorem run_stepsAll (cs : List Code) (depth : Nat) :
    (Writer.run depth (stepsAll cs)).2 = depth := by
  obtain ⟨lines, hlines⟩ := nested_stepsAll cs depth
  rw [hlines.run]

end Code

/-! ### What a call leaves as it was -/

namespace Direct

/-- What has been written. -/
def Emitter.text (e : Emitter) : String := Writer.text e.steps

/-- The number of blocks that are open, which is that of the tabs before the next line. -/
def Emitter.indent (e : Emitter) : Nat := (Writer.run 0 e.steps).2

theorem Emitter.indent_append (e : Emitter) (steps : List Step) :
    Emitter.indent { e with steps := e.steps ++ steps } = (Writer.run e.indent steps).2 := by
  rw [indent, Writer.run_append]
  rfl

theorem Emitter.text_append (e : Emitter) (steps : List Step) :
    Emitter.text { e with steps := e.steps ++ steps } =
      e.text ++ String.join (Writer.run e.indent steps).1 := by
  rw [text, Writer.text, Writer.run_append, String.join_append]
  rfl

/-- A call that found the state `e` and left `e'` has written some lines, and else given back what
it has taken.  Each line has a tab for every block around it.  The call has closed the blocks that
it has opened, and where it closed one, the indentation was more than what it found, so that there
was one to take back. -/
structure Restores (e e' : Emitter) (lines : List String) : Prop where
  pods : e'.pods = e.pods
  current : e'.current = e.current
  indent : e'.indent = e.indent
  text : e'.text = e.text ++ String.join (lines.map (· ++ "\n"))
  nested : ∃ steps, e'.steps = e.steps ++ steps ∧ Nested e.indent steps lines
  leaves : ∀ before after, e'.steps = e.steps ++ (before ++ .leave :: after) →
    e.indent < Emitter.indent { e with steps := e.steps ++ before }

/-- Steps that close what they open are added to what has been written, and nothing else is
changed. -/
theorem restores_of_nested {e : Emitter} {steps : List Step} {lines : List String}
    (h : Nested e.indent steps lines) : Restores e { e with steps := e.steps ++ steps } lines := by
  refine ⟨rfl, rfl, ?_, ?_, ⟨steps, rfl, h⟩, ?_⟩
  · rw [Emitter.indent_append, h.run]
  · rw [Emitter.text_append, h.run]
  · intro before after hsteps
    rw [Emitter.indent_append]
    exact h.lt_of_leave (List.append_cancel_left hsteps)

/-- **A part of a walk that writes code restores the rest.** -/
theorem Does.restores {α : Type} {w : Emission Unit} {e e' : Emitter} {x : Except Obstacle α}
    {code : α → List Code}
    (hdoes : Does w e.pods e.current (x.map fun a => Code.stepsAll (code a)))
    (hrun : w.run e = .ok ((), e')) :
    ∃ a lines, x = .ok a ∧ Restores e e' lines ∧
      (Code.AllLines Unbroken (code a) → ∀ l ∈ lines, Unbroken l) := by
  have hout : outcome e.steps e.pods e.current (x.map fun a => Code.stepsAll (code a)) =
      .ok ((), e') := (hdoes e.steps).symm.trans hrun
  cases x with
  | error cause => cases hout
  | ok a =>
    cases hout
    obtain ⟨lines, hlines⟩ := Code.nested_stepsAll (code a) e.indent
    refine ⟨a, lines, rfl, restores_of_nested hlines, fun hcode => ?_⟩
    exact hlines.newline_notMem (Code.unbroken_stepsAll hcode)

/-! ### The calls for a field -/

/-- Each of the four calls for a field restores the state that it found, whenever it succeeds.  What
it has written are whole lines, if nothing in the graph, the field and the places that the call is
given is spelled with a line feed. -/
structure CallsRestore (g : Graph) (limit room : Nat) (f : Field) : Prop where
  writeField : ∀ (object receiver : Place) (outer : String) (depth : Nat) (e e' : Emitter),
    (writeField g limit room object receiver outer depth f).run e = .ok ((), e') →
    ∃ lines, Restores e e' lines ∧ (g.Unbroken → f.Unbroken → Unbroken object.spell →
      Unbroken receiver.spell → ∀ l ∈ lines, Unbroken l)
  writeValue : ∀ (owner : Option Place) (access : Place) (sink : Sink) (depth : Nat)
    (e e' : Emitter), (writeValue g limit room owner access sink depth f).run e = .ok ((), e') →
    ∃ lines, Restores e e' lines ∧ (g.Unbroken → f.Unbroken → (∀ p ∈ owner, Unbroken p.spell) →
      Unbroken access.spell → sink.Unbroken → ∀ l ∈ lines, Unbroken l)
  readField : ∀ (object source : Place) (outer : String) (depth : Nat) (e e' : Emitter),
    (readField g limit room object source outer depth f).run e = .ok ((), e') →
    ∃ lines, Restores e e' lines ∧ (g.Unbroken → f.Unbroken → Unbroken object.spell →
      Unbroken source.spell → ∀ l ∈ lines, Unbroken l)
  readValue : ∀ (owner : Option Place) (target value : Place) (depth : Nat) (e e' : Emitter),
    (readValue g limit room owner target value depth f).run e = .ok ((), e') →
    ∃ lines, Restores e e' lines ∧ (g.Unbroken → f.Unbroken → (∀ p ∈ owner, Unbroken p.spell) →
      Unbroken target.spell → Unbroken value.spell → ∀ l ∈ lines, Unbroken l)

/-- The record that a value is a member of, if there is one, and else some place. -/
theorem exists_owner (owner : Option Place) (other : Place) :
    ∃ (direct : Bool) (p : Place), owner = (if direct then some p else none) ∧
      ((∀ p ∈ owner, Unbroken p.spell) → Unbroken other.spell → AllPieces Unbroken p.pieces) := by
  cases owner with
  | none => exact ⟨false, other, rfl, fun _ hother => Place.allPieces_of_unbroken hother⟩
  | some p => exact ⟨true, p, rfl, fun howner _ => Place.allPieces_of_unbroken (howner p rfl)⟩

/-- A plan of a field takes over nothing with a line feed. -/
theorem unbroken_of_planMember {g : Graph} (hg : g.Unbroken) {f : Field} (hf : f.Unbroken)
    {top : String} {pods : List String} {outer : String} {ms : List (Member Shape)}
    (h : planMember g top pods [] outer f = .ok ms) : ∀ s ∈ memberSpellings ms, Unbroken s := by
  intro s hs
  have htakes := (takes_of_planned g top).2.1 pods [] outer f ms h s hs
  exact (htakes.resolve_left List.not_mem_nil).unbroken hg hf

theorem unbroken_of_planShape {g : Graph} (hg : g.Unbroken) {f : Field} (hf : f.Unbroken)
    {top : String} {pods : List String} {direct : Bool} {shape : Shape}
    (h : planShape g top pods direct f = .ok shape) : ∀ s ∈ shape.spellings, Unbroken s := by
  intro s hs
  exact ((takes_of_planned g top).2.2 pods direct f shape h s hs).unbroken hg hf

/-- **Every call that succeeds restores the state that it found.** -/
theorem callsRestore {g : Graph} {limit room : Nat} (hlimit : g.nameCount ≤ limit)
    (hroom : g.nameCount ≤ room) (f : Field) : CallsRestore g limit room f := by
  have hfresh : ∀ pods, (fresh g pods).length ≤ room := fun pods =>
    Nat.le_trans (List.length_filter_le _ _) hroom
  refine ⟨?_, ?_, ?_, ?_⟩
  · intro object receiver outer depth e e' hrun
    have hdoes := (does_write hlimit e.current).2.1 e.pods [] outer f room object receiver depth
      (hfresh e.pods)
    obtain ⟨ms, lines, hplan, hrestores, hlines⟩ := hdoes.restores hrun
    refine ⟨lines, hrestores, fun hg hf hobject hreceiver => hlines ?_⟩
    exact allLines_writeMembers (Place.allPieces_of_unbroken hobject)
      (Place.allPieces_of_unbroken hreceiver) depth ms (unbroken_of_planMember hg hf hplan)
  · intro owner access sink depth e e' hrun
    obtain ⟨direct, p, rfl, hp⟩ := exists_owner owner access
    have hdoes := (does_write hlimit e.current).2.2 e.pods direct f room p access sink depth
      (hfresh e.pods)
    obtain ⟨shape, lines, hplan, hrestores, hlines⟩ := hdoes.restores hrun
    refine ⟨lines, hrestores, fun hg hf howner haccess hsink => hlines ?_⟩
    exact allLines_writeShape (hp howner haccess) (Place.allPieces_of_unbroken haccess)
      hsink.allPieces depth shape (unbroken_of_planShape hg hf hplan)
  · intro object source outer depth e e' hrun
    have hdoes := (does_read hlimit e.current).2.1 e.pods [] outer f room object source depth
      (hfresh e.pods)
    obtain ⟨ms, lines, hplan, hrestores, hlines⟩ := hdoes.restores hrun
    refine ⟨lines, hrestores, fun hg hf hobject hsource => hlines ?_⟩
    exact allLines_readMembers (Place.allPieces_of_unbroken hobject)
      (Place.allPieces_of_unbroken hsource) depth ms (unbroken_of_planMember hg hf hplan)
  · intro owner target value depth e e' hrun
    obtain ⟨direct, p, rfl, hp⟩ := exists_owner owner target
    have hdoes := (does_read hlimit e.current).2.2 e.pods direct f room p target value depth
      (hfresh e.pods)
    obtain ⟨shape, lines, hplan, hrestores, hlines⟩ := hdoes.restores hrun
    refine ⟨lines, hrestores, fun hg hf howner htarget hvalue => hlines ?_⟩
    exact allLines_readShape (hp howner htarget) (Place.allPieces_of_unbroken htarget)
      (Place.allPieces_of_unbroken hvalue) depth shape (unbroken_of_planShape hg hf hplan)

/-! ### The routines of a node -/

/-- The lines of code that stands in one block. -/
def fieldLines (cs : List Code) : List String := (Writer.run 1 (Code.stepsAll cs)).1

/-- The lines of four routines with the given code for the fields of a type: writing to an object
and reading from one, and then the same with a document. -/
def routineLines (type : String) (writes reads documentWrites documentReads : List Code) :
    List String :=
  [(objectWriter type []).signature ++ "\n", "\x7b\n"] ++ fieldLines writes ++
  ["\x7d\n", "\n", (objectReader type []).signature ++ "\n", "\x7b\n"] ++ fieldLines reads ++
  ["\x7d\n", "\n", (streamWriter type []).signature ++ "\n", "\x7b\n",
    "\tJSONStructure jsonRep;\n"] ++ fieldLines documentWrites ++
  ["\tosReceiver << jsonRep.Stringify();\n", "\x7d\n", "\n",
    (streamReader type []).signature ++ "\n", "\x7b\n",
    "\tJSONStructure jsonRep = JSONStructure::Parse(isSource);\n"] ++ fieldLines documentReads ++
  ["\x7d\n"]

/-- The four routines of a node are made from code `writes` for a receiver `jsonReceiver` and code
`reads` for a source `jsonSource`.  Going through the fields again writes the same code, but for the
receiver or the source, whatever has been written before; and the routines for a document have the
lines of those for an object, with `jsonRep` in place of these two. -/
structure RoutinesApart (g : Graph) (limit : Nat) (n : Node) (e : Emitter)
    (writes reads : List Code) : Prop where
  writeAll : ∀ receiver before top, ∃ top',
    (writeAll g limit "objSource" receiver (flatten g n)).run ⟨before, [], top⟩ = .ok ((),
      ⟨before ++ Code.stepsAll (Code.redirectAll "jsonReceiver" receiver writes), [], top'⟩)
  readAll : ∀ source before top, ∃ top',
    (readAll g limit "objReceiver" source (flatten g n)).run ⟨before, [], top⟩ = .ok ((),
      ⟨before ++ Code.stepsAll (Code.redirectAll "jsonSource" source reads), [], top'⟩)
  text : e.text = String.join (routineLines n.name writes reads
    (Code.redirectAll "jsonReceiver" "jsonRep" writes)
    (Code.redirectAll "jsonSource" "jsonRep" reads))
  pods : e.pods = []
  indent : e.indent = 0

theorem indented_zero (text : String) : Writer.indented 0 text = text ++ "\n" := by
  rw [Writer.indented, List.replicate_zero, String.ofList_nil, String.empty_append]

/-- The routines of a plan, line by line. -/
theorem run_routineSteps (type : String) (ms : List (Member Shape)) :
    Writer.run 0 (routineSteps (routines type ms)) =
      (routineLines type (writeMembers (.root "objSource") (.root "jsonReceiver") 0 ms)
        (readMembers (.root "objReceiver") (.root "jsonSource") 0 ms)
        (writeMembers (.root "objSource") (.root "jsonRep") 0 ms)
        (readMembers (.root "objReceiver") (.root "jsonRep") 0 ms), 0) := by
  have hnew : Writer.indented 1 (Statement.newDocument "jsonRep").spell =
      "\tJSONStructure jsonRep;\n" := by
    decide
  have hprint : Writer.indented 1 (Statement.printDocument "jsonRep" "osReceiver").spell =
      "\tosReceiver << jsonRep.Stringify();\n" := by
    decide
  have hparse : Writer.indented 1 (Statement.parseDocument "jsonRep" "isSource").spell =
      "\tJSONStructure jsonRep = JSONStructure::Parse(isSource);\n" := by
    decide
  have hopening : "\x7b" ++ "\n" = "\x7b\n" := by
    decide
  have hclosing : "\x7d" ++ "\n" = "\x7d\n" := by
    decide
  rw [routineSteps_routines]
  simp only [routineLines, fieldLines, Writer.run_append, Writer.run, Writer.put,
    Code.run_stepsAll, Nat.zero_add, Nat.sub_self, indented_zero, hnew, hprint, hparse, hopening,
    hclosing, List.append_assoc]

section

variable {g : Graph} {limit : Nat} (hlimit : g.nameCount ≤ limit)

include hlimit

/-- What is written for a node, if it succeeds, are the routines of a plan. -/
theorem exists_plan {id : NodeId} {n : Node} (hn : g.node? id = some n) {e : Emitter}
    (hrun : (emitNode g limit n).run ⟨[], [], ""⟩ = .ok ((), e)) :
    ∃ ms, plan g (flatten g n) = .ok ms ∧ e.steps = routineSteps (routines n.name ms) ∧
      e.pods = [] := by
  cases hpod : n.isPod with
  | true =>
    rw [emitNode, hpod] at hrun
    cases hrun
  | false =>
    obtain ⟨top, hout⟩ := run_emitNode hlimit hn hpod
    rw [hout] at hrun
    cases hplan : plan g (flatten g n) with
    | error cause =>
      rw [hplan] at hrun
      cases hrun
    | ok ms =>
      rw [hplan] at hrun
      cases hrun
      exact ⟨ms, rfl, rfl, rfl⟩

/-- **The routines of a node do not depend on each other.** -/
theorem routinesApart {id : NodeId} {n : Node} (hn : g.node? id = some n) {e : Emitter}
    (hrun : (emitNode g limit n).run ⟨[], [], ""⟩ = .ok ((), e)) :
    ∃ writes reads, RoutinesApart g limit n e writes reads := by
  obtain ⟨ms, hplan, hsteps, hpods⟩ := exists_plan hlimit hn hrun
  have hwrites : ∀ receiver, Code.redirectAll "jsonReceiver" receiver
      (writeMembers (.root "objSource") (.root "jsonReceiver") 0 ms) =
        writeMembers (.root "objSource") (.root receiver) 0 ms := by
    intro receiver
    rw [redirectAll_writeMembers, Place.redirect_root, Place.redirect_root_of_ne (by decide)]
  have hreads : ∀ source, Code.redirectAll "jsonSource" source
      (readMembers (.root "objReceiver") (.root "jsonSource") 0 ms) =
        readMembers (.root "objReceiver") (.root source) 0 ms := by
    intro source
    rw [redirectAll_readMembers, Place.redirect_root, Place.redirect_root_of_ne (by decide)]
  refine ⟨writeMembers (.root "objSource") (.root "jsonReceiver") 0 ms,
    readMembers (.root "objReceiver") (.root "jsonSource") 0 ms, ?_, ?_, ?_, hpods, ?_⟩
  · intro receiver before top
    obtain ⟨top', hall⟩ := doesAll_writeAll hlimit "objSource" receiver (flatten g n) before top
    rw [hplan] at hall
    rw [hwrites]
    exact ⟨top', hall⟩
  · intro source before top
    obtain ⟨top', hall⟩ := doesAll_readAll hlimit "objReceiver" source (flatten g n) before top
    rw [hplan] at hall
    rw [hreads]
    exact ⟨top', hall⟩
  · rw [Emitter.text, Writer.text, hsteps, run_routineSteps, hwrites, hreads]
  · rw [Emitter.indent, hsteps, run_routineSteps]

end

end Direct

/-- **Walks give back what they take**, if the limit is at least the number of names in the graph.
A call for a field, whatever the places that it is given and whatever has been written before, adds
whole lines with one tab for every block around them, closes the blocks that it opens, and leaves
the indentation and the stack of plain records as it found them.  So the four routines of a node do
not depend on each other: those for a document have the lines of those for an object, except for
where the document stands. -/
theorem walks_restore {g : Graph} {limit : Nat} (hlimit : g.nameCount ≤ limit) :
    (∀ room f, g.nameCount ≤ room → Direct.CallsRestore g limit room f) ∧
    ∀ id n e, g.node? id = some n →
      (Direct.emitNode g limit n).run ⟨[], [], ""⟩ = .ok ((), e) →
      generate g n = .ok e.text ∧
      ∃ writes reads, Direct.RoutinesApart g limit n e writes reads := by
  refine ⟨fun room f hroom => Direct.callsRestore hlimit hroom f, fun id n e hn hrun => ⟨?_, ?_⟩⟩
  · have htext : generateWithin g limit n = .ok e.text := by
      rw [generateWithin, hrun]
      rfl
    rw [generateWithin_eq hn hlimit] at htext
    cases hgenerate : generate g n with
    | error why =>
      rw [hgenerate] at htext
      cases htext
    | ok text =>
      rw [hgenerate] at htext
      cases htext
      rfl
  · exact Direct.routinesApart hlimit hn hrun

/-- A plain record with a text. -/
private def photo : Node :=
  ⟨"Photo", .pod, [], [⟨"path", "", .scalar .string, "std::string", .anyone, none⟩], []⟩

/-- A list of plain records. -/
private def photos : Field :=
  ⟨"photos", "", .vector ⟨"", "", .pod, "Photo", .anyone, some 0⟩, "", .anyone, none⟩

/-- A type with a plain record as a member, and with a list of them. -/
private def album : Node :=
  ⟨"Album", .all, [], [⟨"cover", "", .pod, "Photo", .anyone, some 0⟩, photos], []⟩

/-- The members of the type. -/
private def albumMembers : List (Member Shape) :=
  [⟨["cover"], "path", "cover.path", .text⟩,
    ⟨[], "photos", "photos", .vector (.record [⟨[], "path", "path", .text⟩])⟩]

/-- How the list is written to an object. -/
private def photosSteps : List Step :=
  [.enter, .line "JSONArray arr_0;", .line "for (const auto& item_0 : objSource.photos)", .enter,
    .enter, .line "JSONObject obj_1;", .line "obj_1.AddMember(\"path\", JSONString(item_0.path));",
    .line "arr_0.AddItem(obj_1);", .leave, .leave,
    .line "jsonReceiver.AddMember(\"photos\", arr_0);", .leave]

/-- In the midst of a block and of another plain record, the call for the list goes three blocks
further in and comes back, and the routines of the type are written. -/
theorem walks_restore_album :
    (Direct.writeField ⟨[photo, album]⟩ 2 2 (.root "objSource") (.root "jsonReceiver") "" 0
        photos).run ⟨[.enter], ["Album"], "photos"⟩ =
      .ok ((), ⟨.enter :: photosSteps, ["Album"], "photos"⟩) ∧
    (∃ lines, Direct.Restores ⟨[.enter], ["Album"], "photos"⟩
        ⟨.enter :: photosSteps, ["Album"], "photos"⟩ lines ∧ ∀ l ∈ lines, Unbroken l) ∧
    ∃ e writes reads, (Direct.emitNode ⟨[photo, album]⟩ 2 album).run ⟨[], [], ""⟩ = .ok ((), e) ∧
      generate ⟨[photo, album]⟩ album = .ok e.text ∧
      Direct.RoutinesApart ⟨[photo, album]⟩ 2 album e writes reads := by
  have hlimit : Graph.nameCount ⟨[photo, album]⟩ ≤ 2 := by
    decide
  obtain ⟨hcalls, hnodes⟩ := walks_restore hlimit
  have hmember : planMember ⟨[photo, album]⟩ "photos" ["Album"] [] "" photos =
      .ok [⟨[], "photos", "photos", .vector (.record [⟨[], "path", "path", .text⟩])⟩] := by
    cbv
  have hcall := (Direct.does_write hlimit "photos").2.1 ["Album"] [] "" photos 2
    (.root "objSource") (.root "jsonReceiver") 0 (by decide) [.enter]
  rw [hmember] at hcall
  obtain ⟨lines, hrestores, hlines⟩ := (hcalls 2 photos hlimit).writeField _ _ _ _ _ _ hcall
  have hplan : plan ⟨[photo, album]⟩ (flatten ⟨[photo, album]⟩ album) = .ok albumMembers := by
    cbv
  obtain ⟨top, hrun⟩ := Direct.run_emitNode hlimit
    (show Graph.node? ⟨[photo, album]⟩ 1 = some album from rfl) rfl
  rw [hplan] at hrun
  obtain ⟨hgenerate, writes, reads, hapart⟩ := hnodes 1 album _ rfl hrun
  exact ⟨hcall, ⟨lines, hrestores, hlines (by decide) (by decide) (by decide) (by decide)⟩,
    _, writes, reads, hrun, hgenerate, hapart⟩

end Emit
end Marshal
