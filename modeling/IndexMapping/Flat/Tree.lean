import IndexMapping.Error
import IndexMapping.SortedMap

/-! Trees whose mappings may have keys of any kind, and their flat view: the leaves by dotted
path. Empty mappings have no leaves. -/

namespace IndexMapping

inductive Tree where
  | leaf (value : Json)
  | list (items : List Tree)
  | map (entries : List (Json × Tree))

abbrev FlatMap := SortedMap Json

namespace Tree

/-- The tree without composite leaves that a JSON value is. -/
def ofJson : Json → Tree
  | .object ms => map (ofMembers ms)
  | .array xs => list (ofItems xs)
  | v => leaf v
where
  ofItems : List Json → List Tree
    | [] => []
    | x :: xs => ofJson x :: ofItems xs
  ofMembers : List (String × Json) → List (Json × Tree)
    | [] => []
    | (n, v) :: ms => (.string n, ofJson v) :: ofMembers ms

/-- A path with one more step. -/
def step (path step : String) : String := path ++ "." ++ step

/-- A key must be a string. -/
def stringKey (path : String) : Json → Except Error String
  | .string s => .ok s
  | key => .error (.keyNotString path key)

mutual

/-- The JSON value that a tree is, if all keys are strings. -/
def toJson (path : String) : Tree → Except Error Json
  | leaf v => .ok v
  | list items => (itemsToJson path 0 items).map .array
  | map entries => (entriesToJson path [] entries).map .object

def itemsToJson (path : String) (index : Nat) : List Tree → Except Error (List Json)
  | [] => .ok []
  | t :: ts => do
    let v ← toJson (step path (toString index)) t
    let vs ← itemsToJson path (index + 1) ts
    .ok (v :: vs)

def entriesToJson (path : String) (done : List (String × Json)) :
    List (Json × Tree) → Except Error (List (String × Json))
  | [] => .ok done
  | (key, t) :: es => do
    let name ← stringKey path key
    let v ← toJson (step path name) t
    entriesToJson path (Json.insertMember name v done) es

end

/-! ### Flattening -/

mutual

/-- Adds the leaves of a JSON value. -/
def addJson (sequences : Bool) (path : String) (flat : FlatMap) : Json → FlatMap
  | .object ms => addMembers sequences path flat ms
  | .array xs =>
    if sequences then addElements sequences path 0 flat xs else flat.insert path (.array xs)
  | .null => flat.insert path .null
  | .bool b => flat.insert path (.bool b)
  | .number n => flat.insert path (.number n)
  | .string s => flat.insert path (.string s)

def addElements (sequences : Bool) (path : String) (index : Nat) (flat : FlatMap) :
    List Json → FlatMap
  | [] => flat
  | x :: xs =>
    let flat := addJson sequences (step path (toString index)) flat x
    addElements sequences path (index + 1) flat xs

def addMembers (sequences : Bool) (path : String) (flat : FlatMap) :
    List (String × Json) → FlatMap
  | [] => flat
  | (n, v) :: ms => addMembers sequences path (addJson sequences (step path n) flat v) ms

end

mutual

/-- Adds the leaves of a tree. A sequence is one leaf unless sequences are flattened. -/
def add (sequences : Bool) (path : String) (flat : FlatMap) : Tree → Except Error FlatMap
  | leaf v => .ok (addJson sequences path flat v)
  | map entries => addEntries sequences path flat entries
  | list items =>
    if sequences then addItems sequences path 0 flat items
    else (itemsToJson path 0 items).map fun vs => flat.insert path (.array vs)

def addItems (sequences : Bool) (path : String) (index : Nat) (flat : FlatMap) :
    List Tree → Except Error FlatMap
  | [] => .ok flat
  | t :: ts => do
    let flat ← add sequences (step path (toString index)) flat t
    addItems sequences path (index + 1) flat ts

def addEntries (sequences : Bool) (path : String) (flat : FlatMap) :
    List (Json × Tree) → Except Error FlatMap
  | [] => .ok flat
  | (key, t) :: es => do
    let name ← stringKey path key
    let flat ← add sequences (step path name) flat t
    addEntries sequences path flat es

end

/-- How the top level is called where it holds a faulty key. -/
def root : String := "<root>"

/-- Adds the leaves below the top level, whose keys start the paths. -/
def addRoot (sequences : Bool) (flat : FlatMap) : List (Json × Tree) → Except Error FlatMap
  | [] => .ok flat
  | (key, t) :: es => do
    let name ← stringKey root key
    let flat ← add sequences name flat t
    addRoot sequences flat es

/-- The flat view of a tree, whose root must be a mapping. -/
def flatten (sequences : Bool) : Tree → Except Error FlatMap
  | map entries => addRoot sequences .empty entries
  | list _ => .error (.notAMapping .sequence)
  | leaf (.object ms) =>
    .ok (ms.foldl (fun flat (n, v) => addJson sequences n flat v) .empty)
  | leaf (.array _) => .error (.notAMapping .sequence)
  | leaf _ => .error (.notAMapping .scalar)

end Tree

/-- The flat view of a JSON value. -/
def Json.flatten (sequences : Bool) (v : Json) : Except Error FlatMap :=
  (Tree.ofJson v).flatten sequences

end IndexMapping
