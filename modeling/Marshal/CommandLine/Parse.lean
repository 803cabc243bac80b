import Marshal.CommandLine.Basic

/-!
# Reading a command line

Arguments are read from left to right.  `--name` and `-n` start an option; its value is attached
to it or is the next argument, which must not look like an option itself.  Short options may be
written as one argument.  After `--`, nothing is an option any more.

Values are **pending** until it is known that no more of them follow, and only then they are
looked at.  So a bad value is not noticed if the next thing on the command line is an option that
does not exist.

## Main definitions

* `Progress` — how far a command line has been read.
* `Progress.give` — take in the values of an option.
* `parse` — read a command line.
-/

namespace Marshal
namespace CommandLine

/-- How far a command line has been read. -/
structure Progress where
  /-- What it came to so far. -/
  invocation : Invocation
  /-- The options that were given so far. -/
  given : List Choice
  /-- Values not yet looked at, and what they are for. -/
  pending : Option (Slot × List String)
  deriving Repr, Inhabited

/-! ### Values -/

/-- Numbers are smaller than this. -/
def numberBound : Nat := Nat.pow 2 64

/-- The number that a value stands for. -/
def number? (value : String) : Option Nat :=
  let digits := match value.toList with
    | '+' :: cs => cs
    | cs => cs
  if digits ≠ [] ∧ digits.all Char.isDigit then
    let n := digits.foldl (fun n c => n * 10 + (c.toNat - '0'.toNat)) 0
    if n < numberBound then some n else none
  else none

/-- The number of workers that a value stands for. -/
def readNumber (slot : Slot) (value : String) : Except Refusal Nat :=
  match number? value with
  | some n => .ok n
  | none => .error (.noNumber slot value)

/-- The path that a value stands for. -/
def readPath (slot : Slot) (value : String) : Except Refusal FilePath :=
  if value = "" then .error (.noValue slot) else .ok ⟨value⟩

/-- Put a value in its slot. -/
def Invocation.put (i : Invocation) (slot : Slot) (value : String) : Except Refusal Invocation := do
  match slot with
  | .sources => return { i with sources := i.sources ++ [← readPath slot value] }
  | .parseThreads => return { i with parseThreads := ← readNumber slot value }
  | .generateThreads => return { i with generateThreads := ← readNumber slot value }
  | .pluginDirectory => return { i with pluginDirectory := some (← readPath slot value) }
  | .plugins => return { i with plugins := i.plugins ++ [← readPath slot value] }
  | .includePaths => return { i with includePaths := i.includePaths ++ [← readPath slot value] }
  | .outputDirectory => return { i with outputDirectory := some (← readPath slot value) }
  | .configuration => return { i with configuration := some (← readPath slot value) }

namespace Progress

/-- Nothing has been read. -/
def start : Progress := ⟨.empty, [], none⟩

/-- Take in the values of a slot. -/
def give (p : Progress) (slot : Slot) (values : List String) : Except Refusal Progress := do
  if values = [] then throw (.noValue slot)
  if !slot.isRepeatable && .slot slot ∈ p.given then throw (.repeated (.slot slot))
  let invocation ← values.foldlM (fun i value => i.put slot value) p.invocation
  return ⟨invocation, .slot slot :: p.given, p.pending⟩

/-- Take in the pending values. -/
def settle (p : Progress) : Except Refusal Progress :=
  match p.pending with
  | none => .ok p
  | some (slot, values) => ({ p with pending := none }).give slot values

/-- Turn something on. -/
def turnOn (p : Progress) (s : Switch) : Except Refusal Progress := do
  let p ← p.settle
  match s with
  | .help => throw .help
  | .version => throw .version
  | s =>
      if .switch s ∈ p.given then throw (.repeated (.switch s))
      let invocation := match s with
        | .listFormats => { p.invocation with listFormats := true }
        | _ => { p.invocation with verbose := true }
      return ⟨invocation, .switch s :: p.given, p.pending⟩

/-- An option with a value: attached to it, or to come. -/
def take (p : Progress) (slot : Slot) (attached : Option String) : Except Refusal Progress := do
  let p ← p.settle
  match attached with
  | some value => p.give slot [value]
  | none => return { p with pending := some (slot, []) }

/-- An argument that is no option and no value of one. -/
def input (p : Progress) (arg : String) : Except Refusal Progress := do
  match p.pending with
  | some (.sources, values) => return { p with pending := some (.sources, values ++ [arg]) }
  | _ => return { ← p.settle with pending := some (.sources, [arg]) }

/-! ### Arguments -/

/-- An option with a long name, as written after `--`. -/
def longOption (p : Progress) (cs : List Char) : Except Refusal Progress :=
  let name := String.ofList (cs.takeWhile (· ≠ '='))
  let attached := match cs.dropWhile (· ≠ '=') with
    | [] => none
    | _ :: value => some (String.ofList value)
  match long? name, attached with
  | none, _ => .error (.unknownOption s!"--{name}")
  | some (.slot slot), attached => p.take slot attached
  | some (.switch s), none => p.turnOn s
  | some (.switch s), some _ => .error (.unwantedValue s)

/-- Options with short names, as written after `-`. -/
def shortOptions (p : Progress) : List Char → Except Refusal Progress
  | [] => .ok p
  | c :: cs =>
      match short? c with
      | none => .error (.unknownOption s!"-{c}")
      | some (.switch s) => do shortOptions (← p.turnOn s) cs
      | some (.slot slot) =>
          p.take slot <| match cs with
            | [] => none
            | '=' :: value => some (String.ofList value)
            | value => some (String.ofList value)

/-- An argument that is no option. -/
def value (p : Progress) (arg : String) : Except Refusal Progress :=
  match p.pending with
  | some (slot, []) => .ok { p with pending := some (slot, [arg]) }
  | _ => p.input arg

/-- Read arguments, of which those after `--` are inputs. -/
def read (p : Progress) : List String → Except Refusal Progress
  | [] => .ok p
  | arg :: args =>
      match arg.toList with
      | ['-', '-'] => args.foldlM input p
      | '-' :: '-' :: cs => do read (← p.longOption cs) args
      | ['-'] => do read (← p.value arg) args
      | '-' :: cs => do read (← p.shortOptions cs) args
      | _ => do read (← p.value arg) args

end Progress

/-- Read a command line. -/
def parse (args : List String) : Except Refusal Invocation := do
  let p ← (← Progress.start.read args).settle
  if p.invocation.sources.isEmpty && !p.invocation.listFormats then throw .noSources
  return p.invocation

end CommandLine
end Marshal
