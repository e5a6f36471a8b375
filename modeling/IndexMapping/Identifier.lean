import IndexMapping.Text.Characters

/-! Names of mappings: mixed-case identifiers become lower-case words joined by
underscores. A run of capitals is one word, except that its last capital starts the word
of a lower-case letter after it. -/

namespace IndexMapping.Identifier

/-- A capital whose written form depends on what follows it. -/
structure Held where
  char : Char
  /-- Whether a capital came right before it. -/
  inRun : Bool
  deriving DecidableEq, Repr

/-- What has been seen of an identifier. -/
structure Scan where
  /-- Something has been written. -/
  started : Bool
  held : Option Held
  /-- The last character written as it stands is an underscore. -/
  afterUnderscore : Bool
  deriving DecidableEq, Repr

namespace Scan

def initial : Scan := ⟨false, none, false⟩

/-- After a capital anything but a lower-case letter counts as a capital. -/
def isCapital (s : Scan) (c : Char) : Bool :=
  Text.isUppercase c || (s.held.isSome && !Text.isLowercase c)

/-- The held capital in lower case, after an underscore where a word starts. -/
def release (s : Scan) (beforeCapital : Bool) : List Char :=
  match s.held with
  | none => []
  | some h =>
    (if s.started && (!h.inRun || !beforeCapital) && !s.afterUnderscore then ['_'] else []) ++
      Text.lowercase h.char

/-- The scan after a capital, which is held back. -/
def hold (s : Scan) (c : Char) : Scan :=
  ⟨s.started || s.held.isSome, some ⟨c, s.held.isSome⟩, s.afterUnderscore⟩

/-- The scan after a character that is written as it stands. -/
def pass (c : Char) : Scan := ⟨true, none, c = '_'⟩

end Scan

/-- What is written for the rest of an identifier. -/
def words (s : Scan) : List Char → List Char
  | [] => match s.held with
    | none => []
    | some h => Text.lowercase h.char
  | c :: cs =>
    if s.isCapital c then s.release true ++ words (s.hold c) cs
    else s.release false ++ c :: words (Scan.pass c) cs

/-- The identifier as lower-case words joined by underscores. -/
def snake (name : String) : String := String.ofList (words .initial name.toList)

end IndexMapping.Identifier
