import IndexMapping.Decimal.Binary64
import IndexMapping.Decimal.Shortest
import IndexMapping.Json.Basic
import IndexMapping.Text.Characters
import IndexMapping.Toml.Basic

/-! Values of settings as their sources give them, each with the source it is from. -/

namespace IndexMapping.Settings

inductive Scalar where
  | nil
  | bool (b : Bool)
  | integer (n : Int)
  | float (x : Decimal.Real64)
  | string (s : String)
  deriving Repr, Inhabited

/-- A value with its source. A table that several sources make together has none. -/
inductive Value where
  | scalar (origin : Option String) (s : Scalar)
  | array (origin : Option String) (items : List Value)
  | table (origin : Option String) (entries : List (String × Value))
  deriving Repr, Inhabited

namespace Value

def nil : Value := .scalar none .nil

def emptyTable : Value := .table none []

def origin : Value → Option String
  | .scalar o _ => o
  | .array o _ => o
  | .table o _ => o

/-- How a message names the source of a value. -/
def place (v : Value) : String :=
  match v.origin with
  | some o => " in " ++ o
  | none => ""

/-- The entries of a table; other values have none. -/
def entries : Value → List (String × Value)
  | .table _ es => es
  | _ => []

/-- The value as a table, an empty one if it is not one. -/
def toTable : Value → Value
  | .table o es => .table o es
  | _ => emptyTable

/-! ### Texts of numbers -/

/-- Without exponent, and without a point if nothing follows it. -/
def plainLayout : Decimal.Layout := ⟨none, false, .away⟩

/-- Without exponent, but always with a point. -/
def pointLayout : Decimal.Layout := ⟨none, true, .away⟩

def floatText (layout : Decimal.Layout) : Decimal.Real64 → String
  | .finite x => String.ofList (layout.write x)
  | .infinity false => "inf"
  | .infinity true => "-inf"
  | .nan => "NaN"

/-- How a message names a value, given what it calls integers and how it writes floats. -/
def describeWith (integer : String) (layout : Decimal.Layout) : Value → String
  | .scalar _ .nil => "unit value"
  | .scalar _ (.bool b) => s!"boolean `{b}`"
  | .scalar _ (.integer n) => integer ++ s!" `{n}`"
  | .scalar _ (.float x) => "floating point `" ++ floatText layout x ++ "`"
  | .scalar _ (.string s) => "string " ++ Text.quote s
  | .array _ _ => "sequence"
  | .table _ _ => "map"

/-- How a message names a value that cannot hold a group of settings. -/
def describe (v : Value) : String := v.describeWith "integer" pointLayout

/-- How a message names a value that cannot be converted. -/
def describeExact (v : Value) : String := v.describeWith "64-bit integer" plainLayout

/-! ### Conversions -/

/-- A text setting takes every scalar but nil, by its text. -/
def text? : Value → Option String
  | .scalar _ (.string s) => some s
  | .scalar _ (.bool b) => some (toString b)
  | .scalar _ (.integer n) => some (toString n)
  | .scalar _ (.float x) => some (floatText plainLayout x)
  | _ => none

/-- What a word says, in lower case. -/
def flagOfWord? (word : String) : Option Bool :=
  if ["1", "true", "on", "yes"].contains word then some true
  else if ["0", "false", "off", "no"].contains word then some false
  else none

/-- A flag takes numbers, which say yes unless they are zero, and some words in any case. -/
def flag? : Value → Option Bool
  | .scalar _ (.bool b) => some b
  | .scalar _ (.integer n) => some (n ≠ 0)
  | .scalar _ (.float x) => some !x.isZero
  | .scalar _ (.string s) => flagOfWord? (Text.lower s)
  | _ => none

/-- The value as a flag's refusal shows it. -/
def asWord : Value → Value
  | .scalar o (.string s) => .scalar o (.string (Text.lower s))
  | v => v

/-- The name of an alternative: a text, or the only key of a table. -/
def alternative? : Value → Option String
  | .scalar _ (.string s) => some s
  | .table _ [(key, _)] => some key
  | _ => none

/-! ### From documents -/

mutual

def ofToml (origin : Option String) : Toml → Value
  | .bool b => .scalar origin (.bool b)
  | .integer n => .scalar origin (.integer n)
  | .float x => .scalar origin (.float x)
  | .string s => .scalar origin (.string s)
  | .dateTime t => .scalar origin (.string t)
  | .array xs => .array origin (ofTomlItems origin xs)
  | .table es => .table origin (ofTomlEntries origin es)

def ofTomlItems (origin : Option String) : List Toml → List Value
  | [] => []
  | x :: xs => ofToml origin x :: ofTomlItems origin xs

def ofTomlEntries (origin : Option String) : List (String × Toml) → List (String × Value)
  | [] => []
  | (k, v) :: es => (k, ofToml origin v) :: ofTomlEntries origin es

end

/-- Integers of 64 bits are kept, larger ones become floats. -/
def ofNumber : Number → Scalar
  | .integer n =>
    if Decimal.fitsSigned n then .integer n
    else .float (.ofDecimal (n < 0) n.natAbs 0)
  | .float x => .float (.finite x)

mutual

def ofJson (origin : Option String) : Json → Value
  | .null => .scalar origin .nil
  | .bool b => .scalar origin (.bool b)
  | .number n => .scalar origin (ofNumber n)
  | .string s => .scalar origin (.string s)
  | .array xs => .array origin (ofJsonItems origin xs)
  | .object ms => .table origin (ofJsonMembers origin ms)

def ofJsonItems (origin : Option String) : List Json → List Value
  | [] => []
  | x :: xs => ofJson origin x :: ofJsonItems origin xs

def ofJsonMembers (origin : Option String) : List (String × Json) → List (String × Value)
  | [] => []
  | (n, v) :: ms => (n, ofJson origin v) :: ofJsonMembers origin ms

end

end Value

end IndexMapping.Settings
