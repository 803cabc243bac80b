import Marshal.Header.Code
import Marshal.Path

/-!
# Header files

The code for a source file goes into one header, with one macro for each type.  If there is just
one, a second macro stands for it under a name that does not depend on the type.

## Main definitions

* `bodyMacro` — the name of the macro of a type.
* `render` — the text of a header.
* `headerPath?` — where a header goes.
-/

namespace Marshal
namespace Header

/-! ### The text of a header -/

/-- A character that may stand in the name of a macro. -/
def isMacroChar (c : Char) : Bool := c.isAlphanum || c = '_'

/-- A type name as part of the name of a macro. -/
def macroChars : List Char → List Char
  | ':' :: ':' :: cs => '_' :: macroChars cs
  | c :: cs => (if isMacroChar c then c else '_') :: macroChars cs
  | [] => []

/-- The name of the macro of a type. -/
def bodyMacro (typeName : String) : String :=
  String.ofList (macroChars typeName.toList) ++ "_SERIALIZATION_BODY"

/-- How a header calls its source file. -/
def sourceName (source : FilePath) : String := source.fileName.getD source.text

/-- The macro of one type. -/
def renderType (t : TypeCode) : String :=
  "\n#define " ++ bodyMacro t.typeName ++ "() \\\n" ++
    String.join (t.formats.map fun (format, text) => "/* Format: " ++ format ++ " */ \\\n" ++ text)

/-- The macro that stands for the only type. -/
def renderAlias (c : FileCode) : String :=
  match c.types with
  | [only] => "\n#define GENERATED_SERIALIZATION_BODY() " ++ bodyMacro only.typeName ++ "()\n"
  | _ => ""

/-- The headers that are needed. -/
def renderIncludes (c : FileCode) : String :=
  if c.includes.isEmpty then ""
  else "\n" ++ String.join (c.includes.map fun i => "#include " ++ i ++ "\n")

/-- The text of a header. -/
def render (source : FilePath) (c : FileCode) : String :=
  "// Generated by genserialize from " ++ sourceName source ++ ". Do not edit.\n#pragma once\n" ++
    renderIncludes c ++ String.join (c.types.map renderType) ++ renderAlias c

/-! ### The place of a header -/

/-- Where the header of a source file goes: to a common directory, or to one beside the source.
A path that does not end in a name has no header. -/
def headerPath? (outputDirectory : Option FilePath) (source : FilePath) : Option FilePath := do
  let stem ← source.stem
  let directory := outputDirectory.getD ((source.parent.getD ⟨""⟩).join ⟨"generated"⟩)
  if stem = "" then none else return directory.join ⟨stem ++ ".generated.h"⟩

end Header
end Marshal
