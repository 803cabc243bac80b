import Marshal.Toml.Value

/-!
# Tables under construction

A table of a document comes into being in several ways: it may have a header, be opened on the
way to the header of another table, or be opened by a key with dots.  Which of them it was
decides what may still be added to it.  A table that was only passed through gets its own header
at most once; what a dotted key opened stays open for dotted keys alone.

## Main definitions

* `Table`, `Item` — tables under construction.
* `Table.update?` — change the table at the end of a path, opening tables on the way.
* `Table.insert?` — add an entry under a dotted key.
* `Section`, `Builder` — the table whose lines are being read, and all others.
-/

namespace Marshal
namespace Toml

/-- What stands under a key. -/
inductive Item (τ : Type) where
  /-- A value. -/
  | value (v : Value)
  /-- A table. -/
  | table (t : τ)
  /-- Tables with headers of their own, the last one first. -/
  | tables (last : τ) (before : List τ)
  deriving Repr, Inhabited

/-- A table under construction. -/
structure Table where
  /-- Whether it was only opened on the way to something else. -/
  implicit : Bool
  /-- Whether a dotted key opened it. -/
  dotted : Bool
  /-- Its entries, in order. -/
  entries : List (String × Item Table)
  deriving Repr, Inhabited

namespace Table

/-- A table with a header, or the document itself. -/
def new : Table := ⟨false, false, []⟩

/-- A table opened on the way. -/
def opened (dotted : Bool) : Table := ⟨true, dotted, []⟩

/-- What stands under a key. -/
def get? (t : Table) (key : String) : Option (Item Table) := t.entries.lookup key

/-- Put an item under a key: in the place of what is there, or at the end. -/
def set (t : Table) (key : String) (item : Item Table) : Table :=
  { t with
    entries :=
      if (t.get? key).isSome then t.entries.map fun e => if e.1 = key then (key, item) else e
      else t.entries ++ [(key, item)] }

/-- Take away what stands under a key. -/
def erase (t : Table) (key : String) : Table :=
  { t with entries := t.entries.filter (·.1 ≠ key) }

/-- Change the table at the end of a path, opening those that are missing.  A dotted key goes
through none that has a header; of several tables under one key it goes through the last. -/
def update? (dotted : Bool) (change : Table → Option Table) : List String → Table → Option Table
  | [], t => change t
  | key :: path, t =>
      match t.get? key with
      | none => (update? dotted change path (opened dotted)).map fun u => t.set key (.table u)
      | some (.value _) => none
      | some (.tables last before) =>
          (update? dotted change path last).map fun u => t.set key (.tables u before)
      | some (.table u) =>
          if dotted && !u.implicit then none
          else (update? dotted change path u).map fun u => t.set key (.table u)

/-- Add an entry under a dotted key, to the table that the dots before the last lead to. -/
def insert? (path : List String) (key : String) (v : Value) (t : Table) : Option Table :=
  t.update? true (fun u =>
    if u.dotted = path.isEmpty || (u.get? key).isSome then none
    else some (u.set key (.value v))) path

mutual

/-- The value of a table. -/
def toValue : Table → Value
  | ⟨_, _, entries⟩ => .table (entryValues entries)

/-- The values of entries. -/
def entryValues : List (String × Item Table) → List (String × Value)
  | [] => []
  | (key, item) :: es => (key, itemValue item) :: entryValues es

/-- The value of an item. -/
def itemValue : Item Table → Value
  | .value v => v
  | .table t => toValue t
  | .tables last before => .array true (tableValues before [toValue last])

/-- The values of tables that are listed from the last on, in front of others. -/
def tableValues : List Table → List Value → List Value
  | [], vs => vs
  | t :: ts, vs => tableValues ts (toValue t :: vs)

end

end Table

/-! ### Sections -/

/-- A document of which some lines have been read. -/
structure Builder where
  /-- All tables but the one that is being read. -/
  root : Table
  /-- The table that is being read. -/
  current : Table
  /-- Where it belongs: the keys before the last one. -/
  parents : List String
  /-- The last key, if the table has a header. -/
  key : Option String
  /-- Whether the table is one of several under its key. -/
  several : Bool
  deriving Repr, Inhabited

namespace Builder

/-- A document of which nothing has been read. -/
def start : Builder := ⟨.new, .new, [], none, false⟩

/-- Put the table that was being read in its place. -/
def close (b : Builder) : Option Table :=
  match b.key with
  | none => some b.current
  | some key =>
      b.root.update? false (fun parent =>
        match parent.get? key with
        | none =>
            some (parent.set key (if b.several then .tables b.current [] else .table b.current))
        | some (.tables last before) =>
            if b.several then some (parent.set key (.tables b.current (last :: before))) else none
        | some (.table t) =>
            if t.implicit && !b.several then some (parent.set key (.table b.current)) else none
        | some (.value _) => none) b.parents

/-- The table under a key, if it was only passed through, or a new one. -/
def passedThrough? (parent : Table) (key : String) : Option Table :=
  match parent.get? key with
  | none => some .new
  | some (.table t) => if t.implicit && !t.dotted then some { t with implicit := false } else none
  | some _ => none

/-- The table at the end of a path that only goes through tables; opened ones count as empty. -/
def find (path : List String) (t : Table) : Table :=
  match path with
  | [] => t
  | key :: path =>
      match t.get? key with
      | some (.table u) => find path u
      | some (.tables last _) => find path last
      | _ => .opened false

/-- Start a table with a header. -/
def startTable (parents : List String) (key : String) (b : Builder) : Option Builder := do
  let root ← b.close
  let current ← passedThrough? (find parents root) key
  let root ← root.update? false (fun parent => some (parent.erase key)) parents
  return ⟨root, current, parents, some key, false⟩

/-- Start one of several tables with the same header. -/
def startTables (parents : List String) (key : String) (b : Builder) : Option Builder := do
  let root ← b.close
  let root ← root.update? false (fun parent =>
    match parent.get? key with
    | none | some (.tables _ _) => some parent
    | some _ => none) parents
  return ⟨root, .new, parents, some key, true⟩

/-- Add a line under a dotted key to the table that is being read. -/
def addLine (path : List String) (key : String) (v : Value) (b : Builder) : Option Builder := do
  return { b with current := ← b.current.insert? path key v }

/-- The value of the document. -/
def finish (b : Builder) : Option Value := b.close.map Table.toValue

end Builder

end Toml
end Marshal
