import IndexMapping.Toml.Scalar

/-! Dates and times that are written as tables: the first key of the table is a reserved one, the
value of that key is the text, and what follows it does not count. -/

namespace IndexMapping.Toml

/-- The key that makes a table a date or a time. -/
def dateTimeKey : String := "$__toml_private_datetime"

/-- The text under the reserved key, if that comes first. -/
def reserved? : List (String × Toml) → Option Toml
  | [] => none
  | (key, text) :: _ => if key = dateTimeKey then some text else none

mutual

/-- The value with dates and times in place of the tables that stand for them; nothing if one of
these is not valid. -/
def settle? : Toml → Option Toml
  | .array xs => (settleItems? xs).map .array
  | .table es =>
    match reserved? es with
    | some (.string text) => (dateTime? text.toList).map .dateTime
    | some _ => none
    | none => (settleEntries? es).map .table
  | .bool b => some (.bool b)
  | .integer n => some (.integer n)
  | .float x => some (.float x)
  | .string s => some (.string s)
  | .dateTime t => some (.dateTime t)

def settleItems? : List Toml → Option (List Toml)
  | [] => some []
  | x :: xs => do
    let y ← settle? x
    let ys ← settleItems? xs
    some (y :: ys)

def settleEntries? : List (String × Toml) → Option (List (String × Toml))
  | [] => some []
  | (key, x) :: es => do
    let y ← settle? x
    let fs ← settleEntries? es
    some ((key, y) :: fs)

end

end IndexMapping.Toml
