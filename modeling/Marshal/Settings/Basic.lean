import Marshal.Path

/-!
# Settings

The settings of a run come in **layers**: of two layers, the later one decides every setting that
it sets.  A count is set if it is not zero, a list if it is not empty, and anything else if it is
there.  The settings are independent of each other.

## Main definitions

* `Settings` — the settings.
* `Settings.unset` — a layer that sets nothing.
* `Settings.under` — two layers as one.

## Main results

* `unset_under`, `under_unset` — a layer that sets nothing changes nothing.
-/

namespace Marshal

/-- The settings of a run. -/
structure Settings where
  /-- Which messages are logged. -/
  logLevel : Option String
  /-- The number of workers that analyse; zero for one per processor. -/
  parseThreads : Nat
  /-- The number of workers that generate; zero for one per processor. -/
  generateThreads : Nat
  /-- A directory whose plugin libraries are loaded. -/
  pluginDirectory : Option FilePath
  /-- Further plugin libraries. -/
  pluginPaths : List FilePath
  /-- Further directories in which inputs are looked for. -/
  includePaths : List FilePath
  /-- The directory of all headers. -/
  outputDirectory : Option FilePath
  deriving DecidableEq, Repr, Inhabited

namespace Settings

/-- A layer that sets nothing. -/
def unset : Settings := ⟨none, 0, 0, none, [], [], none⟩

/-- The count that two layers come to. -/
def count (earlier later : Nat) : Nat := if later = 0 then earlier else later

/-- The list that two layers come to. -/
def items {α : Type} (earlier later : List α) : List α :=
  if later.isEmpty then earlier else later

/-- Two layers as one. -/
def under (earlier later : Settings) : Settings where
  logLevel := later.logLevel.or earlier.logLevel
  parseThreads := count earlier.parseThreads later.parseThreads
  generateThreads := count earlier.generateThreads later.generateThreads
  pluginDirectory := later.pluginDirectory.or earlier.pluginDirectory
  pluginPaths := items earlier.pluginPaths later.pluginPaths
  includePaths := items earlier.includePaths later.includePaths
  outputDirectory := later.outputDirectory.or earlier.outputDirectory

@[simp] theorem count_zero (n : Nat) : count n 0 = n := rfl

@[simp] theorem zero_count (n : Nat) : count 0 n = n := by
  unfold count
  split <;> simp_all

@[simp] theorem items_nil {α : Type} (as : List α) : items as [] = as := rfl

@[simp] theorem nil_items {α : Type} (as : List α) : items [] as = as := by
  cases as <;> rfl

@[simp] theorem unset_under (s : Settings) : unset.under s = s := by
  cases s
  simp [under, unset]

@[simp] theorem under_unset (s : Settings) : s.under unset = s := by
  cases s
  simp [under, unset]

end Settings
end Marshal
