import IndexMapping.Flat.Tree
import IndexMapping.Text.LineDiff

/-! Comparing two documents by their flat views. -/

namespace IndexMapping

/-- How a path differs between what is expected and what is there. -/
inductive Difference where
  | missing (expected : Json)
  | unexpected (actual : Json)
  | changed (expected actual : Json)
  deriving Repr

namespace Difference

def expected? : Difference → Option Json
  | missing e => some e
  | unexpected _ => none
  | changed e _ => some e

def actual? : Difference → Option Json
  | missing _ => none
  | unexpected a => some a
  | changed _ a => some a

def name : Difference → String
  | missing _ => "missing"
  | unexpected _ => "unexpected"
  | changed _ _ => "changed"

/-- The difference between two leaves that may be absent. -/
def between : Option Json → Option Json → Option Difference
  | none, none => none
  | some e, none => some (missing e)
  | none, some a => some (unexpected a)
  | some e, some a => if a.same e then none else some (changed e a)

end Difference

structure Change where
  path : String
  difference : Difference
  deriving Repr

/-- The entries of two maps side by side, by increasing key. -/
def SortedMap.joinEntries {α β : Type} :
    List (String × α) → List (String × β) → List (String × Option α × Option β)
  | [], bs => bs.map fun (k, b) => (k, none, some b)
  | as, [] => as.map fun (k, a) => (k, some a, none)
  | (k, a) :: as, (l, b) :: bs =>
    if k < l then (k, some a, none) :: joinEntries as ((l, b) :: bs)
    else if l < k then (l, none, some b) :: joinEntries ((k, a) :: as) bs
    else (k, some a, some b) :: joinEntries as bs
termination_by as bs => as.length + bs.length

/-- The paths at which two flat views differ, in order. -/
def FlatMap.changes (expected actual : FlatMap) : List Change :=
  (SortedMap.joinEntries expected.toList actual.toList).filterMap fun (path, e, a) =>
    (Difference.between e a).map fun d => ⟨path, d⟩

structure Comparison where
  changes : List Change
  /-- The sizes of the two flat views. -/
  expectedSize : Nat
  actualSize : Nat

namespace Comparison

def isEqual (c : Comparison) : Bool := c.changes.isEmpty

def summary (c : Comparison) : String :=
  if c.isEqual then s!"{c.expectedSize} paths match"
  else s!"{c.changes.length} of {max c.expectedSize c.actualSize} paths differ"

def encodeChange (c : Change) : Json :=
  .ofMembers [some ("change_type", .string c.difference.name), some ("path", .string c.path),
    c.difference.expected?.map fun v => ("expected", v),
    c.difference.actual?.map fun v => ("actual", v)]

def encode (c : Comparison) : Json :=
  .object [("changes", .array (c.changes.map encodeChange)), ("summary", .string c.summary)]

end Comparison

/-- Compares two documents by content. -/
def Json.compare (sequences : Bool) (expected actual : Json) : Except Error Comparison := do
  let e ← expected.flatten sequences
  let a ← actual.flatten sequences
  .ok ⟨FlatMap.changes e a, e.size, a.size⟩

/-- One line for each leaf. -/
def FlatMap.text (flat : FlatMap) : String :=
  String.join (flat.toList.map fun (path, v) => path ++ " = " ++ v.compact ++ "\n")

/-- The changed lines between the flat views of two documents. -/
def Json.diff (sequences : Bool) (expected actual : Json) : Except Error String := do
  let e ← expected.flatten sequences
  let a ← actual.flatten sequences
  let script := Text.Script.between (Text.lines (FlatMap.text e)) (Text.lines (FlatMap.text a))
  .ok (Text.renderEdits script.edits)

end IndexMapping
