import Marshal.Proofs.Header.Macros

/-!
# The names of macros

The name of a macro is made of the name of a type: every `::` and every other character that may
not stand in the name of a macro becomes an underscore.  So types of different names can come to
the same macro, and the name that stands for the only type of a file can be that of its own macro.

## Main definitions

* `macroPart` — the name of a type as part of the name of a macro.
* `FileCode.macroNames` — the macros for the code of a file.
* `definedNames` — the macros that a text defines.
* `isQualified` — names made of letters, digits and `::`.

## Main results

* `macroPart_injOn_isQualified`, `macroPart_eq_self` — names that are kept apart.
* `definedNames_render` — the macros that a header defines.
* `macroNames_distinct` — when these are distinct.
-/

namespace Marshal
namespace Header

open Schema Plugin

/-! ### Parts of names -/

/-- The name of a type as part of the name of a macro. -/
def macroPart (typeName : String) : String := String.ofList (macroChars typeName.toList)

/-- Whether a name is made of letters, digits and `::`. -/
def isQualified : List Char → Bool
  | ':' :: ':' :: cs => isQualified cs
  | c :: cs => c.isAlphanum && isQualified cs
  | [] => true

/-- The qualified name that a part of the name of a macro comes from. -/
def requalified (cs : List Char) : List Char :=
  cs.flatMap fun c => if c = '_' then [':', ':'] else [c]

theorem bodyMacro_eq (typeName : String) :
    bodyMacro typeName = macroPart typeName ++ "_SERIALIZATION_BODY" := rfl

theorem bodyMacro_inj {a b : String} : bodyMacro a = bodyMacro b ↔ macroPart a = macroPart b := by
  rw [bodyMacro_eq, bodyMacro_eq]
  refine ⟨fun h => String.toList_injective ?_, fun h => congrArg (· ++ _) h⟩
  simpa [String.toList_append] using congrArg String.toList h

/-- Qualified names can be read back: each underscore stands for `::`. -/
theorem requalified_macroChars {cs : List Char} (h : isQualified cs) :
    requalified (macroChars cs) = cs := by
  induction cs using macroChars.induct with
  | case1 cs ih =>
    rw [isQualified] at h
    rw [macroChars, requalified, List.flatMap_cons, if_pos rfl]
    exact congrArg ([':', ':'] ++ ·) (ih h)
  | case2 c cs hcolons ih =>
    rw [isQualified.eq_2 c cs hcolons, Bool.and_eq_true] at h
    have hchar : isMacroChar c := by simp [isMacroChar, h.1]
    have hunderscore : c ≠ '_' := by
      rintro rfl
      exact absurd h.1 (by decide)
    rw [macroChars.eq_2 c cs hcolons, if_pos hchar, requalified, List.flatMap_cons,
      if_neg hunderscore]
    exact congrArg ([c] ++ ·) (ih h.2)
  | case3 => rfl

/-- **Qualified names are kept apart.** -/
theorem macroPart_injOn_isQualified {a b : String} (ha : isQualified a.toList)
    (hb : isQualified b.toList) (h : macroPart a = macroPart b) : a = b := by
  have hchars : macroChars a.toList = macroChars b.toList := String.ofList_injective h
  refine String.toList_injective ?_
  rw [← requalified_macroChars ha, ← requalified_macroChars hb, hchars]

/-- **A name that may be part of the name of a macro stays as it is.** -/
theorem macroPart_eq_self {a : String} (ha : ∀ c ∈ a.toList, isMacroChar c) : macroPart a = a := by
  have hchars : ∀ cs : List Char, (∀ c ∈ cs, isMacroChar c) → macroChars cs = cs := by
    intro cs hcs
    induction cs using macroChars.induct with
    | case1 cs => exact absurd (hcs ':' List.mem_cons_self) (by decide)
    | case2 c cs hcolons ih =>
      obtain ⟨hc, hcs⟩ := List.forall_mem_cons.1 hcs
      rw [macroChars.eq_2 c cs hcolons, if_pos hc, ih hcs]
    | case3 => rfl
  rw [macroPart, hchars _ ha, String.ofList_toList]

/-! ### The macros of a header -/

/-- The macros for the code of a file: one for each type, and one that stands for the only type. -/
def FileCode.macroNames (c : FileCode) : List String :=
  c.types.map (bodyMacro ·.typeName) ++
    match c.types with
    | [_] => ["GENERATED_SERIALIZATION_BODY"]
    | _ => []

/-- The name that a line which starts a macro gives to it. -/
def definedName (l : List Char) : String :=
  String.ofList ((l.drop "#define ".length).takeWhile isMacroChar)

/-- The macros that a text defines, in order. -/
def definedNames (text : String) : List String :=
  ((logicalLines text).filter startsMacro).map definedName

/-- A name is read up to the first character that may not stand in it. -/
theorem definedName_eq {name : String} (hname : ∀ c ∈ name.toList, isMacroChar c) (c : Char)
    (hc : isMacroChar c = false) (rest : List Char) :
    definedName ("#define ".toList ++ (name.toList ++ c :: rest)) = name := by
  have hdrop : ("#define ".toList ++ (name.toList ++ c :: rest)).drop "#define ".length =
      name.toList ++ c :: rest := List.drop_left
  rw [definedName, hdrop, List.takeWhile_append_of_pos hname,
    List.takeWhile_cons_of_neg (by simp [hc]), List.append_nil, String.ofList_toList]

theorem isMacroChar_bodyMacro (typeName : String) :
    ∀ c ∈ (bodyMacro typeName).toList, isMacroChar c := by
  intro c hc
  rw [bodyMacro, String.toList_append, String.toList_ofList] at hc
  rcases List.mem_append.1 hc with hc | hc
  · exact isMacroChar_of_mem_macroChars hc
  · have hall : ∀ c ∈ "_SERIALIZATION_BODY".toList, isMacroChar c := List.all_eq_true.1 (by decide)
    exact hall c hc

theorem Produced.definedName_macroLine (t : Produced) :
    definedName t.macroLine = bodyMacro t.name := by
  have h := definedName_eq (isMacroChar_bodyMacro t.name) '(' (by decide)
    (") ".toList ++ t.codes.flatMap fun c =>
      ("/* Format: " ++ c.1 ++ " */ ").toList ++ joinContinued (continued c.2).toList)
  rw [← h, macroLine]
  simp

theorem definedName_aliases (types : List Produced) :
    (aliases types).map definedName =
      match types with
      | [_] => ["GENERATED_SERIALIZATION_BODY"]
      | _ => [] := by
  rcases types with - | ⟨only, - | ⟨second, rest⟩⟩
  · rfl
  · have hchars : ∀ c ∈ "GENERATED_SERIALIZATION_BODY".toList, isMacroChar c :=
      List.all_eq_true.1 (by decide)
    have h := definedName_eq hchars '(' (by decide)
      (") ".toList ++ ((bodyMacro only.name).toList ++ "()".toList))
    rw [aliases, List.map_singleton, ← h]
    simp
  · rfl

section

variable {r : Registry} {g : Graph} {ids : List NodeId}

/-- **The macros that a header defines** are one for each type that has code, and one that stands
for the only one. -/
theorem definedNames_render {source : FilePath} (hsource : '\n' ∉ (sourceName source).toList)
    (hformats : ∀ e ∈ r.entries, '\n' ∉ e.name.toList)
    (hincludes : ∀ e ∈ r.entries, ∀ i ∈ e.plugin.includes,
      '\n' ∉ i.toList ∧ i.toList.getLast? ≠ some '\\') :
    definedNames (render source (generate r g ids)) = (generate r g ids).macroNames := by
  rw [definedNames, filter_startsMacro_generate hsource hformats hincludes, List.map_append,
    definedName_aliases, List.map_map, FileCode.macroNames, generate_types, List.map_map]
  refine congrArg₂ (· ++ ·) (List.map_congr_left fun t _ => t.definedName_macroLine) ?_
  rcases produced r g ids with - | ⟨only, - | ⟨second, rest⟩⟩ <;> rfl

theorem nameOf_of_produced? {id : NodeId} {t : Produced} (h : produced? r g id = some t) :
    g.nameOf id = some t.name := by
  obtain ⟨n, hn, h⟩ := Option.bind_eq_some_iff.1 h
  dsimp only at h
  split_ifs at h
  all_goals
    obtain rfl := Option.some.inj h
    rw [Graph.nameOf, hn, Option.map_some]

/-- The types that have code keep the order they have in the tree. -/
theorem typeNames_sublist (r : Registry) (g : Graph) (ids : List NodeId) :
    ((generate r g ids).types.map (·.typeName)).Sublist (ids.filterMap g.nameOf) := by
  rw [generate_types, List.map_map, produced, List.map_filterMap]
  induction ids with
  | nil => exact .slnil
  | cons id ids ih =>
    rw [List.filterMap_cons, List.filterMap_cons]
    cases hp : produced? r g id with
    | none =>
      rw [Option.map_none]
      cases g.nameOf id with
      | none => exact ih
      | some name => exact ih.cons name
    | some t =>
      rw [nameOf_of_produced? hp]
      exact ih.cons_cons t.name

/-- Names of distinct parts give distinct macros, unless the only one takes the name of the macro
that stands for it. -/
theorem macroNames_nodup {c : FileCode} (hbodies : (c.types.map (bodyMacro ·.typeName)).Nodup)
    (halias : ∀ only, c.types = [only] → macroPart only.typeName ≠ "GENERATED") :
    c.macroNames.Nodup := by
  unfold FileCode.macroNames
  split
  case h_1 only honly =>
    have hpart : macroPart "GENERATED" = "GENERATED" :=
      macroPart_eq_self (List.all_eq_true.1 (by decide))
    have hne : bodyMacro only.typeName ≠ bodyMacro "GENERATED" := by
      rw [Ne, bodyMacro_inj, hpart]
      exact halias only honly
    have hgenerated : bodyMacro "GENERATED" = "GENERATED_SERIALIZATION_BODY" := by decide
    rw [honly]
    simpa [hgenerated] using hne
  case h_2 => simpa using hbodies

end

/-- **When the macros of a header are distinct.**  Let the names of a tree be distinct.  The macros
of the types that have code are distinct exactly if no two of their names become the same part of a
name; this is so if all of them are qualified names without underscores, or all of them may be part
of the name of a macro as they are.  Then, if the only type does not become `GENERATED`, all macros
are distinct; and these are the macros that the header defines. -/
theorem macroNames_distinct (r : Registry) (g : Graph) (ids : List NodeId)
    (hnames : (ids.filterMap g.nameOf).Nodup) :
    let code := generate r g ids
    let names := code.types.map (·.typeName)
    let apart := ∀ a ∈ names, ∀ b ∈ names, macroPart a = macroPart b → a = b
    ((names.map bodyMacro).Nodup ↔ apart) ∧
    ((∀ a ∈ names, isQualified a.toList) ∨ (∀ a ∈ names, ∀ c ∈ a.toList, isMacroChar c) → apart) ∧
    (apart → (∀ only, names = [only] → macroPart only ≠ "GENERATED") → code.macroNames.Nodup) ∧
    (∀ source : FilePath, '\n' ∉ (sourceName source).toList →
      (∀ e ∈ r.entries, '\n' ∉ e.name.toList) →
      (∀ e ∈ r.entries, ∀ i ∈ e.plugin.includes,
        '\n' ∉ i.toList ∧ i.toList.getLast? ≠ some '\\') →
      definedNames (render source code) = code.macroNames) := by
  intro code names apart
  have hnodup : names.Nodup := (typeNames_sublist r g ids).nodup hnames
  have hbodies : (names.map bodyMacro).Nodup ↔ apart := by
    rw [List.nodup_map_iff_inj_on hnodup]
    exact forall₂_congr fun a _ => forall₂_congr fun b _ => by rw [bodyMacro_inj]
  refine ⟨hbodies, ?_, ?_, ?_⟩
  · rintro (hqualified | hchars) a ha b hb h
    · exact macroPart_injOn_isQualified (hqualified a ha) (hqualified b hb) h
    · rwa [macroPart_eq_self (hchars a ha), macroPart_eq_self (hchars b hb)] at h
  · intro hapart halias
    refine macroNames_nodup ?_ fun only honly => halias only.typeName ?_
    · rw [← Function.comp_def bodyMacro, ← List.map_map]
      exact hbodies.2 hapart
    · exact congrArg (List.map (·.typeName)) honly
  · exact fun source hsource hformats hincludes => definedNames_render hsource hformats hincludes

/-- A plugin that gives the same code for all types. -/
def uniform : Registry := ⟨[⟨"A", ⟨"A", 0, ["<a.h>"], fun _ _ => .ok "x"⟩, 0⟩]⟩

/-- Types whose names become the same part of a name. -/
def folded : Graph :=
  ⟨[⟨"a::B", .all, ["A"], [], []⟩, ⟨"a_B", .all, ["A"], [], []⟩, ⟨"c::D", .all, ["A"], [], []⟩]⟩

theorem macroNames_distinct_folded :
    ([0, 2].filterMap folded.nameOf).Nodup ∧
    (generate uniform folded [0, 2]).macroNames.Nodup ∧
    (generate uniform folded [0, 2]).macroNames =
      ["a_B_SERIALIZATION_BODY", "c_D_SERIALIZATION_BODY"] := by
  have hnames : ([0, 2].filterMap folded.nameOf).Nodup := by decide
  have htypes : (generate uniform folded [0, 2]).types.map (·.typeName) = ["a::B", "c::D"] := by
    decide +kernel
  obtain ⟨-, hqualified, hnodup, -⟩ := macroNames_distinct uniform folded [0, 2] hnames
  rw [htypes] at hqualified hnodup
  exact ⟨hnames, hnodup (hqualified (.inl (by decide))) (by simp), by decide +kernel⟩

/-- Distinct names can come to one macro, which the header then defines twice. -/
theorem definedNames_folded :
    ([0, 1].filterMap folded.nameOf).Nodup ∧
    definedNames (render ⟨"src/T.h"⟩ (generate uniform folded [0, 1])) =
      ["a_B_SERIALIZATION_BODY", "a_B_SERIALIZATION_BODY"] ∧
    ¬ (definedNames (render ⟨"src/T.h"⟩ (generate uniform folded [0, 1]))).Nodup := by
  have hdefined : definedNames (render ⟨"src/T.h"⟩ (generate uniform folded [0, 1])) =
      ["a_B_SERIALIZATION_BODY", "a_B_SERIALIZATION_BODY"] := by
    rw [definedNames_render (by decide) (by decide) (by decide)]
    decide +kernel
  exact ⟨by decide, hdefined, by rw [hdefined]; decide⟩

end Header
end Marshal
