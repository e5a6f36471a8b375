import IndexMapping.Json.Printer
import IndexMapping.Text.Characters

/-! What can go wrong when JSON is read or decoded, and how it is reported. -/

namespace IndexMapping.Json

/-- What was found where something else was expected. -/
inductive Found where
  | null
  | bool (b : Bool)
  | number (n : Number)
  | string (s : String)
  | sequence
  | map
  | unitVariant
  deriving Repr

namespace Found

def text : Found → String
  | null => "null"
  | bool b => s!"boolean `{b}`"
  | number (.integer n) => s!"integer `{n}`"
  | number (.float x) => "floating point `" ++ String.ofList (floatLayout.write x) ++ "`"
  | string s => "string " ++ Text.quote s
  | sequence => "sequence"
  | map => "map"
  | unitVariant => "unit variant"

end Found

/-- The kind of a value, as a mismatch names it. -/
def found : Json → Found
  | .null => .null
  | .bool b => .bool b
  | .number n => .number n
  | .string s => .string s
  | .array _ => .sequence
  | .object _ => .map

/-- Well-formed JSON that is not of the form a decoder asks for. -/
inductive Mismatch where
  | type (found : Found) (expected : String)
  | value (found : Found) (expected : String)
  | length (n : Nat) (expected : String)
  | missingField (name : String)
  | duplicateField (name : String)
  | unknownVariant (name : String) (known : List String)
  deriving Repr

namespace Mismatch

/-- Alternatives, each in backquotes. -/
def alternatives (names : List String) : String :=
  match names.map fun n => "`" ++ n ++ "`" with
  | [a] => a
  | [a, b] => a ++ " or " ++ b
  | all => "one of " ++ String.intercalate ", " all

def message : Mismatch → String
  | type f e => "invalid type: " ++ f.text ++ ", expected " ++ e
  | value f e => "invalid value: " ++ f.text ++ ", expected " ++ e
  | length n e => s!"invalid length {n}, expected " ++ e
  | missingField n => "missing field `" ++ n ++ "`"
  | duplicateField n => "duplicate field `" ++ n ++ "`"
  | unknownVariant n known => "unknown variant `" ++ n ++ "`, expected " ++ alternatives known

end Mismatch

inductive Cause where
  | endInValue
  | endInList
  | endInObject
  | endInString
  | expectedValue
  | expectedIdent
  | expectedColon
  | expectedListSeparator
  | expectedObjectSeparator
  | keyNotString
  | trailingComma
  | trailingCharacters
  | invalidNumber
  | numberOutOfRange
  | invalidEscape
  | endOfHexEscape
  | loneSurrogate
  | invalidCodePoint
  | controlCharacter
  | tooDeep
  | mismatch (m : Mismatch)
  deriving Repr

namespace Cause

def message : Cause → String
  | endInValue => "EOF while parsing a value"
  | endInList => "EOF while parsing a list"
  | endInObject => "EOF while parsing an object"
  | endInString => "EOF while parsing a string"
  | expectedValue => "expected value"
  | expectedIdent => "expected ident"
  | expectedColon => "expected `:`"
  | expectedListSeparator => "expected `,` or `]`"
  | expectedObjectSeparator => "expected `,` or `\x7d`"
  | keyNotString => "key must be a string"
  | trailingComma => "trailing comma"
  | trailingCharacters => "trailing characters"
  | invalidNumber => "invalid number"
  | numberOutOfRange => "number out of range"
  | invalidEscape => "invalid escape"
  | endOfHexEscape => "unexpected end of hex escape"
  | loneSurrogate => "lone leading surrogate in hex escape"
  | invalidCodePoint => "invalid unicode code point"
  | controlCharacter => "control character (\\u0000-\\u001F) found while parsing a string"
  | tooDeep => "recursion limit exceeded"
  | mismatch m => m.message

end Cause

/-- A failure of a reader: the text not consumed, and where the failure lies. -/
structure Failure where
  cause : Cause
  /-- How many bytes of `rest` belong to what is reported; `none` until an enclosing bracket
  has decided on the place. -/
  ahead : Option Nat
  rest : List Char
  deriving Repr

/-- A place in a text: lines from 1, columns in bytes. -/
structure Position where
  line : Nat
  column : Nat
  deriving DecidableEq, Repr

namespace Position

def start : Position := ⟨1, 0⟩

def newLine (p : Position) : Position := ⟨p.line + 1, 0⟩

def advance (p : Position) (c : Char) : Position :=
  if c = '\n' then p.newLine else ⟨p.line, p.column + c.utf8Size⟩

/-- The place reached after some text. -/
def after (consumed : List Char) : Position := consumed.foldl advance start

/-- The place that is `ahead` bytes into the text that follows. -/
def into (p : Position) (ahead : Nat) : List Char → Position
  | [] => p
  | c :: _ => if ahead = 0 then p else if c = '\n' then p.newLine else ⟨p.line, p.column + ahead⟩

end Position

/-- A failure with its place in the whole text. -/
structure ReadError where
  cause : Cause
  position : Option Position
  deriving Repr

namespace ReadError

def message (e : ReadError) : String :=
  match e.position with
  | some p => e.cause.message ++ s!" at line {p.line} column {p.column}"
  | none => e.cause.message

end ReadError

/-- Places a failure in the text it was found in. -/
def Failure.locate (text : List Char) (f : Failure) : ReadError :=
  { cause := f.cause
    position := f.ahead.map fun n =>
      (Position.after (text.take (text.length - f.rest.length))).into n f.rest }

end IndexMapping.Json
