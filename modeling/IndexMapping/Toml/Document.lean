import IndexMapping.Toml.Quoted
import IndexMapping.Toml.Scalar

/-! Reading TOML documents. Every table is defined once: by a header, as the table in which the
table of a header lies, or by a dotted key. -/

namespace IndexMapping.Toml

/-! ### Tables under construction -/

inductive Definition where
  /-- By a header of its own. -/
  | header
  /-- By a header of a table within it. -/
  | implied
  /-- By a dotted key. -/
  | dotted
  deriving DecidableEq, Repr

inductive Section where
  | value (v : Toml)
  | table (definition : Definition) (entries : List (String × Section))
  /-- Tables under one header in double brackets. -/
  | tables (items : List (List (String × Section)))

abbrev Sections := List (String × Section)

namespace Section

def find? (key : String) : Sections → Option Section
  | [] => none
  | (k, s) :: rest => if k = key then some s else find? key rest

def set (key : String) (s : Section) : Sections → Sections
  | [] => [(key, s)]
  | (k, t) :: rest => if k = key then (k, s) :: rest else (k, t) :: set key s rest

/-- Changes the last of some tables. -/
def changeLast (f : Sections → Option Sections) : List Sections → Option (List Sections)
  | [] => none
  | [es] => (f es).map ([·])
  | es :: rest => (changeLast f rest).map (es :: ·)

/-- Sets a key that is not there yet, in the table that dotted keys lead to. -/
def assign (key : String) (v : Toml) : List String → Sections → Option Sections
  | [], es =>
    match find? key es with
    | some _ => none
    | none => some (set key (.value v) es)
  | p :: ps, es =>
    match find? p es with
    | none => (assign key v ps []).map fun inner => set p (.table .dotted inner) es
    | some (.table definition inner) =>
      if definition = .header || (ps.isEmpty && definition ≠ .dotted) then none
      else (assign key v ps inner).map fun inner => set p (.table definition inner) es
    | some (.tables items) =>
      if ps.isEmpty then none
      else (changeLast (assign key v ps) items).map fun items => set p (.tables items) es
    | some (.value _) => none

def erase (key : String) : Sections → Sections
  | [] => []
  | (k, s) :: rest => if k = key then rest else (k, s) :: erase key rest

/-- Defines the table of a header. A table that headers within it implied moves to the end. -/
def openTable : List String → Sections → Option Sections
  | [], _ => none
  | [key], es =>
    match find? key es with
    | none => some (set key (.table .header []) es)
    | some (.table .implied inner) => some (erase key es ++ [(key, .table .header inner)])
    | some _ => none
  | p :: q :: ps, es =>
    match find? p es with
    | none => (openTable (q :: ps) []).map fun inner => set p (.table .implied inner) es
    | some (.table definition inner) =>
      (openTable (q :: ps) inner).map fun inner => set p (.table definition inner) es
    | some (.tables items) =>
      (changeLast (openTable (q :: ps)) items).map fun items => set p (.tables items) es
    | some (.value _) => none

/-- Adds a table under a header in double brackets. -/
def openElement : List String → Sections → Option Sections
  | [], _ => none
  | [key], es =>
    match find? key es with
    | none => some (set key (.tables [[]]) es)
    | some (.tables items) => some (set key (.tables (items ++ [[]])) es)
    | some _ => none
  | p :: q :: ps, es =>
    match find? p es with
    | none => (openElement (q :: ps) []).map fun inner => set p (.table .implied inner) es
    | some (.table definition inner) =>
      (openElement (q :: ps) inner).map fun inner => set p (.table definition inner) es
    | some (.tables items) =>
      (changeLast (openElement (q :: ps)) items).map fun items => set p (.tables items) es
    | some (.value _) => none

/-- Changes the table that the last header opened. -/
def within (f : Sections → Option Sections) : List String → Sections → Option Sections
  | [], es => f es
  | p :: ps, es =>
    match find? p es with
    | some (.table definition inner) =>
      (within f ps inner).map fun inner => set p (.table definition inner) es
    | some (.tables items) =>
      (changeLast (within f ps) items).map fun items => set p (.tables items) es
    | _ => none

mutual

def toToml : Section → Toml
  | .value v => v
  | .table _ es => .table (entries es)
  | .tables items => .array (elements items)

def entries : Sections → List (String × Toml)
  | [] => []
  | (k, s) :: es => (k, toToml s) :: entries es

def elements : List Sections → List Toml
  | [] => []
  | es :: items => .table (entries es) :: elements items

end

end Section

/-! ### Keys -/

def isBare (c : Char) : Bool := c.isAlphanum || c = '_' || c = '-'

def readKey (cs : List Char) : Option (String × List Char) :=
  match cs with
  | '"' :: _ => readLineString cs
  | '\x27' :: _ => readLineString cs
  | cs =>
    let key := cs.takeWhile isBare
    if key.isEmpty then none else some (String.ofList key, cs.drop key.length)

/-- Keys joined by dots: all but the last, the last, and what is left. -/
def readKeys : Nat → List Char → Option (List String × String × List Char)
  | 0, _ => none
  | fuel + 1, cs => do
    let (key, rest) ← readKey (skipBlank cs)
    match skipBlank rest with
    | '.' :: rest =>
      let (keys, last, rest) ← readKeys fuel rest
      some (key :: keys, last, rest)
    | rest => some ([], key, rest)

/-- How many keys may be joined. -/
def keyLimit : Nat := 79

/-! ### Values -/

/-- The elements of an array after its opening bracket. -/
def readElements (element : Read Toml) : Nat → List Toml → Read (List Toml)
  | 0, _, _ => none
  | fuel + 1, acc, cs => do
    match ← skipLines (cs.length + 1) cs with
    | ']' :: rest => some (acc.reverse, rest)
    | cs =>
      let (v, rest) ← element cs
      match ← skipLines (rest.length + 1) rest with
      | ',' :: rest => readElements element fuel (v :: acc) rest
      | ']' :: rest => some ((v :: acc).reverse, rest)
      | _ => none

/-- A key, an equals sign and a value. -/
def readPair (element : Read Toml) (cs : List Char) :
    Option ((List String × String × Toml) × List Char) := do
  let (path, key, rest) ← readKeys keyLimit cs
  match rest with
  | '=' :: rest =>
    let (v, rest) ← element (skipBlank rest)
    some ((path, key, v), rest)
  | _ => none

/-- The pairs of an inline table after its first bracket; a comma leads to one more pair. -/
def readPairs (element : Read Toml) : Nat → Sections → Read Sections
  | 0, _, _ => none
  | fuel + 1, es, cs => do
    let ((path, key, v), rest) ← readPair element cs
    let es ← Section.assign key v path es
    match skipBlank rest with
    | ',' :: rest => readPairs element fuel es rest
    | '\x7d' :: rest => some (es, rest)
    | _ => none

/-- How many brackets may be open in a value. -/
def depthLimit : Nat := 79

def readValue (budget : Nat) (cs : List Char) : Option (Toml × List Char) :=
  match cs with
  | '"' :: _ => (readString cs).map fun (s, rest) => (.string s, rest)
  | '\x27' :: _ => (readString cs).map fun (s, rest) => (.string s, rest)
  | '[' :: rest =>
    match budget with
    | 0 => none
    | budget + 1 =>
      (readElements (fun r => readValue budget r) (rest.length + 1) [] rest).map fun (xs, rest) =>
        (.array xs, rest)
  | '\x7b' :: rest =>
    match budget with
    | 0 => none
    | budget + 1 =>
      match skipBlank rest with
      | '\x7d' :: rest => some (.table [], rest)
      | rest =>
        (readPairs (fun r => readValue budget r) (rest.length + 1) [] rest).map fun (es, rest) =>
          (.table (Section.entries es), rest)
  | cs => readWord cs

/-! ### Documents -/

/-- The keys of a header between its brackets. -/
def readHeader (cs : List Char) : Option (List String × List Char) := do
  let (path, key, rest) ← readKeys keyLimit cs
  some (path ++ [key], rest)

/-- The lines of a document; `current` is the path of the last header. -/
def readLines : Nat → List String → Sections → List Char → Option Sections
  | 0, _, _, _ => none
  | fuel + 1, current, es, cs =>
    match skipBlank cs with
    | [] => some es
    | '[' :: '[' :: rest => do
      match ← readHeader rest with
      | (path, ']' :: ']' :: rest) =>
        let es ← Section.openElement path es
        let rest ← readLineEnd rest
        readLines fuel path es rest
      | _ => none
    | '[' :: rest => do
      match ← readHeader rest with
      | (path, ']' :: rest) =>
        let es ← Section.openTable path es
        let rest ← readLineEnd rest
        readLines fuel path es rest
      | _ => none
    | c :: rest =>
      if c = '#' || c = '\n' || c = '\r' then do
        let rest ← readLineEnd (c :: rest)
        readLines fuel current es rest
      else do
        let ((path, key, v), rest) ← readPair (readValue depthLimit) (c :: rest)
        let es ← Section.within (Section.assign key v path) current es
        let rest ← readLineEnd rest
        readLines fuel current es rest

/-- A text without the mark of its encoding, which may stand at the start. -/
def withoutMark : List Char → List Char
  | '\ufeff' :: cs => cs
  | cs => cs

/-- The entries of a document. -/
def parse? (text : String) : Option (List (String × Toml)) :=
  (readLines (text.length + 1) [] [] (withoutMark text.toList)).map Section.entries

end IndexMapping.Toml
