import IndexMapping.Json.Skip

/-! Typed decoding. A decoder gives the same values from a JSON text and from a JSON value,
but a text is decoded as it is read, so the first fault in it is the one reported. -/

namespace IndexMapping.Json

structure Decoder (α : Type) where
  /-- From a text, with a budget of brackets that may be opened. -/
  ofText : Nat → Read α
  ofValue : Json → Except Mismatch α

/-- A mismatch that an enclosing bracket will place. -/
def failUnplaced {α : Type} (m : Mismatch) (rest : List Char) : Except Failure α :=
  .error ⟨.mismatch m, none, rest⟩

/-- A mismatch placed at what has been consumed. -/
def failMismatch {α : Type} (m : Mismatch) (rest : List Char) : Except Failure α :=
  failBehind (.mismatch m) rest

/-- A value of the wrong type: a scalar is read whole, a bracket stays unread. -/
def readMistyped {α : Type} (expected : String) (cs : List Char) : Except Failure α :=
  let wrong (f : Found) (rest : List Char) : Except Failure α :=
    failMismatch (.type f expected) rest
  match skipBlank cs with
  | [] => failAhead .endInValue []
  | 'n' :: rest => do
    let (_, rest) ← readWord ['u', 'l', 'l'] rest
    wrong .null rest
  | 't' :: rest => do
    let (_, rest) ← readWord ['r', 'u', 'e'] rest
    wrong (.bool true) rest
  | 'f' :: rest => do
    let (_, rest) ← readWord ['a', 'l', 's', 'e'] rest
    wrong (.bool false) rest
  | '-' :: rest => do
    let (n, rest) ← readNumber true rest
    wrong (.number n) rest
  | '"' :: rest => do
    let (s, rest) ← readString rest
    wrong (.string s) rest
  | '[' :: rest => wrong .sequence ('[' :: rest)
  | '\x7b' :: rest => wrong .map ('\x7b' :: rest)
  | c :: rest =>
    if isDigit c then do
      let (n, rest) ← readNumber false (c :: rest)
      wrong (.number n) rest
    else failAhead .expectedValue (c :: rest)

/-- Where the end of a list is looked for when decoding stopped within it. -/
def closeList (cs : List Char) : List Char :=
  match skipBlank cs with
  | ']' :: rest => rest
  | ',' :: rest => skipBlank rest
  | rest => rest

def closeObject (cs : List Char) : List Char :=
  match skipBlank cs with
  | '\x7d' :: rest => rest
  | rest => rest

/-- Places a failure without place at the end of the bracket. -/
def placedBy {α : Type} (close : List Char → List Char) (r : Except Failure α) : Except Failure α :=
  r.mapError fun f => match f.ahead with
    | some _ => f
    | none => { f with ahead := some 0, rest := close f.rest }

/-- The end of a list that holds no more than was asked for. -/
def readListEnd (cs : List Char) : Except Failure (Unit × List Char) :=
  match skipBlank cs with
  | [] => failAhead .endInList []
  | ']' :: rest => .ok ((), rest)
  | ',' :: rest =>
    match skipBlank rest with
    | ']' :: rest => failAhead .trailingComma (']' :: rest)
    | rest => failAhead .trailingCharacters rest
  | rest => failAhead .trailingCharacters rest

namespace Decoder

variable {α β σ : Type}

def map (f : α → β) (d : Decoder α) : Decoder β where
  ofText budget cs := (d.ofText budget cs).map fun (x, rest) => (f x, rest)
  ofValue v := (d.ofValue v).map f

def string : Decoder String where
  ofText _ cs :=
    match skipBlank cs with
    | '"' :: rest => readString rest
    | rest => readMistyped "a string" rest
  ofValue
    | .string s => .ok s
    | v => .error (.type (found v) "a string")

def bool : Decoder Bool where
  ofText _ cs :=
    match skipBlank cs with
    | 't' :: rest => do
      let (_, rest) ← readWord ['r', 'u', 'e'] rest
      .ok (true, rest)
    | 'f' :: rest => do
      let (_, rest) ← readWord ['a', 'l', 's', 'e'] rest
      .ok (false, rest)
    | rest => readMistyped "a boolean" rest
  ofValue
    | .bool b => .ok b
    | v => .error (.type (found v) "a boolean")

/-- Nothing nests this deep. -/
def tooDeep : Decoder α where
  ofText _ cs := failAhead .tooDeep cs
  ofValue v := .error (.type (found v) "a shallower value")

/-- `null` is no value. -/
def nullable (d : Decoder α) : Decoder (Option α) where
  ofText budget cs :=
    match skipBlank cs with
    | 'n' :: rest => do
      let (_, rest) ← readWord ['u', 'l', 'l'] rest
      .ok (none, rest)
    | rest => (d.ofText budget rest).map fun (x, rest) => (some x, rest)
  ofValue
    | .null => .ok none
    | v => (d.ofValue v).map some

def list (d : Decoder α) : Decoder (List α) where
  ofText budget cs :=
    match skipBlank cs with
    | '[' :: rest =>
      match budget with
      | 0 => failAhead .tooDeep ('[' :: rest)
      | budget + 1 =>
        placedBy closeList (readElements (d.ofText budget) (rest.length + 1) [] rest)
    | rest => readMistyped "a sequence" rest
  ofValue
    | .array xs => xs.mapM d.ofValue
    | v => .error (.type (found v) "a sequence")

/-- An object whose members all have one type, in the order of their first places. -/
def table (d : Decoder α) : Decoder (List (String × α)) where
  ofText budget cs :=
    match skipBlank cs with
    | '\x7b' :: rest =>
      match budget with
      | 0 => failAhead .tooDeep ('\x7b' :: rest)
      | budget + 1 =>
        placedBy closeObject (readMembers (d.ofText budget) (rest.length + 1) [] rest)
    | rest => readMistyped "a map" rest
  ofValue
    | .object ms => ms.mapM fun (n, v) => (d.ofValue v).map fun x => (n, x)
    | v => .error (.type (found v) "a map")

end Decoder

/-! ### Records -/

/-- A field of a record that is gathered in a state `σ`. -/
structure RecordField (σ : Type) where
  name : String
  required : Bool
  isSet : σ → Bool
  /-- The update that sets the field. -/
  decoder : Decoder (σ → σ)

/-- A record: an object with known members, or a list of their values in order. -/
structure Record (σ α : Type) where
  name : String
  fields : List (RecordField σ)
  /-- No field is set. -/
  empty : σ
  /-- Fails if a required field is missing. -/
  complete : σ → Except Mismatch α

namespace Record

variable {σ α : Type}

def expected (r : Record σ α) : String := "struct " ++ r.name

def expectedLength (r : Record σ α) : String :=
  r.expected ++ s!" with {r.fields.length} element" ++ (if r.fields.length = 1 then "" else "s")

def field? (r : Record σ α) (name : String) : Option (RecordField σ) :=
  r.fields.find? (·.name = name)

/-- Values of the fields in order, until the list ends. -/
def readList (r : Record σ α) (budget : Nat) (first : Bool) (index : Nat) (s : σ) :
    List (RecordField σ) → Read σ
  | [], cs => .ok (s, cs)
  | f :: fs, cs => do
    match ← nextElement first cs with
    | (none, rest) =>
      if (f :: fs).any (·.required) then
        let missing := ((f :: fs).takeWhile fun g => !g.required).length
        failUnplaced (.length (index + missing) r.expectedLength) rest
      else .ok (s, rest)
    | (some (), rest) =>
      let (set, rest) ← f.decoder.ofText budget rest
      readList r budget false (index + 1) (set s) fs rest

/-- Members in any order; unknown ones are passed over. -/
def readObject (r : Record σ α) (budget : Nat) : Nat → Bool → σ → Read σ
  | 0, _, _, cs => failAhead .endInObject cs
  | fuel + 1, first, s, cs => do
    match ← nextName first cs with
    | (none, rest) => .ok (s, rest)
    | (some (), rest) =>
      let (name, rest) ← readString rest
      match r.field? name with
      | none =>
        let (_, rest) ← readColon rest
        let (_, rest) ← Skip.value rest
        readObject r budget fuel false s rest
      | some f =>
        if f.isSet s then failUnplaced (.duplicateField name) rest
        else
          let (_, rest) ← readColon rest
          let (set, rest) ← f.decoder.ofText budget rest
          readObject r budget fuel false (set s) rest

/-- The record that the gathered fields make, at the place where the bracket ends. -/
def finish (r : Record σ α) (s : σ) (rest : List Char) : Except Failure (α × List Char) :=
  match r.complete s with
  | .ok x => .ok (x, rest)
  | .error m => failUnplaced m rest

/-- Values of the fields in order, from a list of values. -/
def ofItems (r : Record σ α) (count index : Nat) (s : σ) :
    List (RecordField σ) → List Json → Except Mismatch σ
  | [], [] => .ok s
  | [], _ :: _ => .error (.length count "fewer elements in array")
  | fs, [] =>
    if fs.any (·.required) then
      .error (.length (index + (fs.takeWhile fun g => !g.required).length) r.expectedLength)
    else .ok s
  | f :: fs, v :: vs => do
    let set ← f.decoder.ofValue v
    ofItems r count (index + 1) (set s) fs vs

def ofMembers (r : Record σ α) (s : σ) : List (String × Json) → Except Mismatch σ
  | [] => .ok s
  | (n, v) :: ms =>
    match r.field? n with
    | none => ofMembers r s ms
    | some f => do
      let set ← f.decoder.ofValue v
      ofMembers r (set s) ms

def decoder (r : Record σ α) : Decoder α where
  ofText budget cs :=
    match skipBlank cs with
    | '[' :: rest =>
      match budget with
      | 0 => failAhead .tooDeep ('[' :: rest)
      | budget + 1 => do
        let (x, rest) ← placedBy closeList do
          let (s, rest) ← r.readList budget true 0 r.empty r.fields rest
          r.finish s rest
        let (_, rest) ← readListEnd rest
        .ok (x, rest)
    | '\x7b' :: rest =>
      match budget with
      | 0 => failAhead .tooDeep ('\x7b' :: rest)
      | budget + 1 => do
        let (x, rest) ← placedBy closeObject do
          let (s, rest) ← r.readObject budget (rest.length + 1) true r.empty rest
          r.finish s rest
        .ok (x, rest.drop 1)
    | rest => readMistyped r.expected rest
  ofValue
    | .array vs => do
      let s ← r.ofItems vs.length 0 r.empty r.fields vs
      r.complete s
    | .object ms => do
      let s ← r.ofMembers r.empty ms
      r.complete s
    | v => .error (.type (found v) r.expected)

end Record

/-! ### Variants -/

/-- A choice between named alternatives: one that carries a value is an object with that one
member, one that carries none is its name. -/
structure Variant (α : Type) where
  name : String
  /-- Decodes the value carried. -/
  carried : Option (Decoder α)
  /-- The alternative itself, if it carries nothing. -/
  plain : Option α

namespace Variant

variable {α : Type}

def find (alternatives : List (Variant α)) (name : String) : Except Mismatch (Variant α) :=
  match alternatives.find? (·.name = name) with
  | some a => .ok a
  | none => .error (.unknownVariant name (alternatives.map (·.name)))

/-- The alternative that a bare name stands for. -/
def bare (a : Variant α) : Except Mismatch α :=
  match a.plain with
  | some x => .ok x
  | none => .error (.type .unitVariant "newtype variant")

/-- The value carried; an alternative that carries none takes `null`. -/
def value (a : Variant α) : Decoder α where
  ofText budget cs :=
    match a.carried, a.plain with
    | some d, _ => d.ofText budget cs
    | none, some x =>
      match skipBlank cs with
      | 'n' :: rest => do
        let (_, rest) ← readWord ['u', 'l', 'l'] rest
        .ok (x, rest)
      | rest => readMistyped "unit" rest
    | none, none => readMistyped "unit" cs
  ofValue v :=
    match a.carried, a.plain, v with
    | some d, _, v => d.ofValue v
    | none, some x, .null => .ok x
    | none, _, v => .error (.type (found v) "unit")

def decoder (alternatives : List (Variant α)) : Decoder α where
  ofText budget cs :=
    match skipBlank cs with
    | [] => failAhead .endInValue []
    | '"' :: rest => do
      let (name, rest) ← readString rest
      match find alternatives name with
      | .error m => failMismatch m rest
      | .ok a =>
        match a.bare with
        | .ok x => .ok (x, rest)
        | .error m => failUnplaced m rest
    | '\x7b' :: rest =>
      match budget with
      | 0 => failAhead .tooDeep ('\x7b' :: rest)
      | budget + 1 => do
        match ← nextName true rest with
        | (none, rest) => failAhead .expectedValue rest
        | (some (), rest) =>
          let (name, rest) ← readString rest
          match find alternatives name with
          | .error m => failMismatch m rest
          | .ok a =>
            let (_, rest) ← readColon rest
            let (x, rest) ← a.value.ofText budget rest
            match skipBlank rest with
            | [] => failBehind .endInObject []
            | '\x7d' :: rest => .ok (x, rest)
            | rest => failBehind .expectedValue rest
    | rest => failAhead .expectedValue rest
  ofValue
    | .string name => do
      let a ← find alternatives name
      a.bare
    | .object [(name, v)] => do
      let a ← find alternatives name
      a.value.ofValue v
    | .object _ => .error (.value .map "map with a single key")
    | v => .error (.type (found v) "string or map")

end Variant

namespace Decoder

variable {α : Type}

/-- Decodes a whole text. -/
def parse (d : Decoder α) (text : String) : Except ReadError α :=
  readWhole (d.ofText depthLimit) text.toList

end Decoder

end IndexMapping.Json
