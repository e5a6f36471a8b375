import IndexMapping.Json.Basic
import IndexMapping.Decimal.Shortest

/-! JSON text of a value: compact, or with one member or element to a line. -/

namespace IndexMapping.Json

/-- Floats are positional for exponents from -5 to 15, and always have a point there. -/
def floatLayout : Decimal.Layout := ⟨some (-5, 15), true, .toEven⟩

def lowHex (n : Nat) : List Char := [Nat.digitChar (n / 16), Nat.digitChar (n % 16)]

/-- Written form of one character of a string. -/
def escapeChar (c : Char) : List Char :=
  if c = '"' then ['\\', '"']
  else if c = '\\' then ['\\', '\\']
  else if c = '\x08' then ['\\', 'b']
  else if c = '\x0c' then ['\\', 'f']
  else if c = '\n' then ['\\', 'n']
  else if c = '\r' then ['\\', 'r']
  else if c = '\t' then ['\\', 't']
  else if c < ' ' then ['\\', 'u', '0', '0'] ++ lowHex c.toNat
  else [c]

def writeString (s : String) : List Char :=
  '"' :: s.toList.flatMap escapeChar ++ ['"']

def writeInteger (n : Int) : List Char :=
  if n < 0 then '-' :: Decimal.digitsOf n.natAbs else Decimal.digitsOf n.natAbs

def writeNumber : Number → List Char
  | .integer n => writeInteger n
  | .float x => floatLayout.write x

def writeBool (b : Bool) : List Char :=
  if b then ['t', 'r', 'u', 'e'] else ['f', 'a', 'l', 's', 'e']

mutual

/-- No white space outside strings. -/
def writeCompact : Json → List Char
  | null => ['n', 'u', 'l', 'l']
  | bool b => writeBool b
  | number n => writeNumber n
  | string s => writeString s
  | array xs => '[' :: writeItems xs ++ [']']
  | object ms => '\x7b' :: writeMembers ms ++ ['\x7d']

def writeItems : List Json → List Char
  | [] => []
  | [x] => writeCompact x
  | x :: y :: xs => writeCompact x ++ ',' :: writeItems (y :: xs)

def writeMembers : List (String × Json) → List Char
  | [] => []
  | [(n, v)] => writeString n ++ ':' :: writeCompact v
  | (n, v) :: m :: ms => writeString n ++ ':' :: writeCompact v ++ ',' :: writeMembers (m :: ms)

end

def compact (v : Json) : String := String.ofList v.writeCompact

/-- A new line at a depth. -/
def lineStart (unit : List Char) (depth : Nat) : List Char :=
  '\n' :: (List.replicate depth unit).flatten

mutual

/-- Each element and member on a line of its own, indented by one unit for each open
bracket; empty brackets stay together. -/
def writeIndented (unit : List Char) (depth : Nat) : Json → List Char
  | array [] => ['[', ']']
  | array (x :: xs) =>
    '[' :: indentedItems unit (depth + 1) (x :: xs) ++ lineStart unit depth ++ [']']
  | object [] => ['\x7b', '\x7d']
  | object (m :: ms) =>
    '\x7b' :: indentedMembers unit (depth + 1) (m :: ms) ++ lineStart unit depth ++ ['\x7d']
  | null => ['n', 'u', 'l', 'l']
  | bool b => writeBool b
  | number n => writeNumber n
  | string s => writeString s

def indentedItems (unit : List Char) (depth : Nat) : List Json → List Char
  | [] => []
  | [x] => lineStart unit depth ++ writeIndented unit depth x
  | x :: y :: xs =>
    lineStart unit depth ++ writeIndented unit depth x ++ ',' :: indentedItems unit depth (y :: xs)

def indentedMembers (unit : List Char) (depth : Nat) : List (String × Json) → List Char
  | [] => []
  | [(n, v)] => lineStart unit depth ++ writeString n ++ ':' :: ' ' :: writeIndented unit depth v
  | (n, v) :: m :: ms =>
    lineStart unit depth ++ writeString n ++ ':' :: ' ' :: writeIndented unit depth v ++
      ',' :: indentedMembers unit depth (m :: ms)

end

def indented (unit : String) (v : Json) : String :=
  String.ofList (v.writeIndented unit.toList 0)

end IndexMapping.Json
