import IndexMapping.Decimal.Binary64

/-! TOML values, and the white space and keys of TOML texts. A reader takes the text and gives
what it read with the text that is left, or nothing if the text is not valid. -/

namespace IndexMapping

inductive Toml where
  | bool (b : Bool)
  | integer (n : Int)
  | float (x : Decimal.Real64)
  | string (s : String)
  /-- A date, a time or both, in normal form. -/
  | dateTime (text : String)
  | array (items : List Toml)
  | table (entries : List (String × Toml))
  deriving Repr, Inhabited

namespace Toml

abbrev Read (α : Type) := List Char → Option (α × List Char)

def isBlank (c : Char) : Bool := c = ' ' || c = '\t'

def skipBlank (cs : List Char) : List Char := cs.dropWhile isBlank

/-- Characters that may stand in strings and comments. -/
def isText (c : Char) : Bool := c = '\t' || (' ' ≤ c && c ≠ '\x7f')

/-- The end of a line: what follows a comment and a line break, if they are there. -/
def readLineEnd (cs : List Char) : Option (List Char) :=
  let cs := match skipBlank cs with
    | '#' :: rest => rest.dropWhile isText
    | rest => rest
  match cs with
  | [] => some []
  | '\n' :: rest => some rest
  | '\r' :: '\n' :: rest => some rest
  | _ => none

/-- Blanks, line breaks and comments, as between the elements of an array. -/
def skipLines : Nat → List Char → Option (List Char)
  | 0, _ => none
  | fuel + 1, cs =>
    match skipBlank cs with
    | '\n' :: rest => skipLines fuel rest
    | '\r' :: '\n' :: rest => skipLines fuel rest
    | '#' :: rest =>
      match rest.dropWhile isText with
      | '\n' :: rest => skipLines fuel rest
      | '\r' :: '\n' :: rest => skipLines fuel rest
      | _ => none
    | rest => some rest

end Toml

end IndexMapping
