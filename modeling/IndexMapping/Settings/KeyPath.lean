import IndexMapping.Settings.Value

/-! Paths of keys and indices, and setting what lies at their end. -/

namespace IndexMapping.Settings

inductive KeyStep where
  | key (name : String)
  /-- From the end if negative. -/
  | index (i : Int)
  deriving DecidableEq, Repr

/-- A key of the topmost table and the steps from there. -/
structure KeyPath where
  root : String
  steps : List KeyStep := []
  deriving DecidableEq, Repr

namespace KeyPath

/-! ### Reading -/

def isKeyChar (c : Char) : Bool := c.isAlphanum || c = ' ' || c = '_' || c = '-'

/-- A key with what follows it. -/
def readName (cs : List Char) : Option (String × List Char) :=
  let name := cs.takeWhile isKeyChar
  if name.isEmpty then none else some (String.ofList name, cs.drop name.length)

def isDigit (c : Char) : Bool := '0' ≤ c && c ≤ '9'

def ofDigits (ds : List Char) : Nat := ds.foldl (fun n d => n * 10 + (d.toNat - '0'.toNat)) 0

/-- An index of 64 bits and its closing bracket, with what follows them. -/
def readIndex (cs : List Char) : Option (Int × List Char) :=
  let cs := cs.dropWhile Toml.isBlank
  let (negative, cs) := match cs with
    | '-' :: rest => (true, rest)
    | rest => (false, rest)
  let digits := cs.takeWhile isDigit
  let n : Int := if negative then -(ofDigits digits : Int) else ofDigits digits
  match (cs.drop digits.length).dropWhile Toml.isBlank with
  | ']' :: rest =>
    if digits.isEmpty || !Decimal.fitsSigned n then none else some (n, rest)
  | _ => none

/-- Steps up to the end of the text. -/
def readSteps : Nat → List Char → Option (List KeyStep)
  | _, [] => some []
  | 0, _ => none
  | fuel + 1, '.' :: cs => do
    let (name, rest) ← readName cs
    let steps ← readSteps fuel rest
    some (.key name :: steps)
  | fuel + 1, '[' :: cs => do
    let (i, rest) ← readIndex cs
    let steps ← readSteps fuel rest
    some (.index i :: steps)
  | _, _ => none

/-- A path such as `a.b[0]`. -/
def parse? (text : String) : Option KeyPath := do
  let (root, rest) ← readName text.toList
  let steps ← readSteps rest.length rest
  some ⟨root, steps⟩

/-- The path that a key in lower case is. A key that is no path stands for itself. -/
def ofKey (text : String) : KeyPath :=
  let key := Text.lower text
  (parse? key).getD ⟨key, []⟩

end KeyPath

/-! ### Setting -/

/-- Sets an entry in place, or adds it. -/
def setEntry (key : String) (value : Value) : List (String × Value) → List (String × Value)
  | [] => [(key, value)]
  | (k, v) :: es => if k = key then (k, value) :: es else (k, v) :: setEntry key value es

/-- The place of an index in a list of some length. -/
def place? (i : Int) (length : Nat) : Option Nat :=
  let n := if i < 0 then length + i else i
  if n < 0 then none else some n.toNat

/-- Changes the element at a place, with nil in the places missing before it. -/
def changeAt (f : Value → Value) : Nat → List Value → List Value
  | 0, [] => [f .nil]
  | 0, x :: xs => f x :: xs
  | n + 1, [] => .nil :: changeAt f n []
  | n + 1, x :: xs => x :: changeAt f n xs

namespace Value

mutual

/-- Sets a key, in lower case, of a value that becomes a table. A table is merged into what the
key has, key by key; all else takes its place. -/
def setKey (key : String) (value target : Value) : Value :=
  let key := Text.lower key
  let entries := target.entries
  match value with
  | .table _ es =>
    let merged := setKeys es ((entries.lookup key).getD emptyTable)
    .table target.toTable.origin (setEntry key merged entries)
  | .array o xs => .table target.toTable.origin (setEntry key (.array o xs) entries)
  | .scalar o s => .table target.toTable.origin (setEntry key (.scalar o s) entries)

def setKeys (entries : List (String × Value)) (target : Value) : Value :=
  match entries with
  | [] => target
  | (k, v) :: es => setKeys es (setKey k v target)

end

/-- Changes the entry of a key, nil if it is missing, of a value that becomes a table. -/
def changeKey (f : Value → Value) (key : String) (target : Value) : Value :=
  let key := Text.lower key
  let entries := target.entries
  .table target.toTable.origin (setEntry key (f ((entries.lookup key).getD nil)) entries)

/-- Changes the element at an index of a value that becomes an array. -/
def changeIndex (f : Value → Value) (i : Int) (target : Value) : Value :=
  let (origin, items) := match target with
    | .array o xs => (o, xs)
    | _ => (none, [])
  match place? i items.length with
  | some n => .array origin (changeAt f n items)
  | none => .array origin items

/-- Sets what lies at the end of some steps. -/
def setSteps (value : Value) : List KeyStep → Value → Value
  | [], _ => value
  | [.key name], target => setKey name value target
  | .key name :: steps, target => changeKey (setSteps value steps) name target
  | .index i :: steps, target => changeIndex (setSteps value steps) i target

/-- Sets what lies at the end of a path. -/
def set (target : Value) (path : KeyPath) (value : Value) : Value :=
  setSteps value (.key path.root :: path.steps) target

end Value

end IndexMapping.Settings
