/-! Lines of a text, and the changes between two lists of lines that keep as many lines as
possible. -/

namespace IndexMapping.Text

/-- Lines with their ends; a line ends after a line feed, after a carriage return, or after
both in this order. `line` holds the characters of the line so far, newest first. -/
def splitLines (line : List Char) : List Char → List String
  | [] => if line.isEmpty then [] else [String.ofList line.reverse]
  | '\r' :: '\n' :: cs => String.ofList ('\n' :: '\r' :: line).reverse :: splitLines [] cs
  | c :: cs =>
    if c = '\n' || c = '\r' then String.ofList (c :: line).reverse :: splitLines [] cs
    else splitLines (c :: line) cs

def lines (s : String) : List String := splitLines [] s.toList

/-- One step from the old lines to the new ones. -/
inductive Edit where
  | keep (line : String)
  | delete (line : String)
  | insert (line : String)
  deriving DecidableEq, Repr

/-- Edits with the number of lines they keep. -/
structure Script where
  kept : Nat
  edits : List Edit
  deriving DecidableEq, Repr

namespace Script

def empty : Script := ⟨0, []⟩

def keep (line : String) (s : Script) : Script := ⟨s.kept + 1, .keep line :: s.edits⟩

def delete (line : String) (s : Script) : Script := ⟨s.kept, .delete line :: s.edits⟩

def insert (line : String) (s : Script) : Script := ⟨s.kept, .insert line :: s.edits⟩

/-- The script that keeps more; of two equal ones the first. -/
def better (s t : Script) : Script := if s.kept < t.kept then t else s

/-- Scripts from no line to each ending of the new lines, the longest first. -/
def insertions : List String → List Script
  | [] => [empty]
  | y :: ys =>
    let row := insertions ys
    (row.headD empty).insert y :: row

/-- Scripts from `x` and the old lines of the row to each ending of the new lines. -/
def extend (x : String) : List String → List Script → List Script
  | [], row => [(row.headD empty).delete x]
  | y :: ys, row =>
    let shorter := extend x ys row.tail
    let best :=
      if x = y then (row.tail.headD empty).keep x
      else better ((row.headD empty).delete x) ((shorter.headD empty).insert y)
    best :: shorter

/-- A script that keeps as many lines as possible, deleting before it inserts. -/
def between (old new : List String) : Script :=
  (old.foldr (fun x row => extend x new row) (insertions new)).headD empty

end Script

/-- The changed lines, each after its sign. -/
def renderEdits (edits : List Edit) : String :=
  String.join (edits.map fun
    | .keep _ => ""
    | .delete l => "-" ++ l
    | .insert l => "+" ++ l)

end IndexMapping.Text
