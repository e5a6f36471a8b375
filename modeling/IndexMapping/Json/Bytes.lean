import IndexMapping.Json.Reader
import IndexMapping.Text.Utf8

/-! JSON texts given as bytes, and laying them out. Bytes that are no text are no JSON, but a byte
that belongs to no character is not noticed before the end of the string it stands in. -/

namespace IndexMapping.Json

/-- What follows the first string that ends behind a place. The place is given by the number of
characters from there on. -/
def afterString (place : Nat) : Nat → List Char → Option (List Char)
  | 0, _ => none
  | _, [] => none
  | fuel + 1, c :: cs =>
    if c = '"' then
      match readChars (cs.length + 1) [] cs with
      | .error _ => none
      | .ok (_, rest) => if rest.length < place then some rest else afterString place fuel rest
    else afterString place fuel cs

/-- How many bytes the contents of a string have from some place within it on. -/
def contentSize (cs : List Char) : Nat :=
  match readChars (cs.length + 1) [] cs with
  | .error _ => 0
  | .ok (content, _) => content.foldl (fun n c => n + c.utf8Size) 0

/-- Why bytes that are no text are no JSON. A byte that belongs to no character may stand within
a string only, and the string is refused once it has been read. The place is as far before the end
of the string as its contents are long from that byte on. -/
def strayFailure (units : List (Option Char)) : ReadError :=
  let text := units.map (·.getD '\x7f')
  let tail := text.drop (units.findIdx Option.isNone)
  let read : Except Failure (List Char) := do
    let (_, rest) ← readValue depthLimit text
    readEnd rest
    pure []
  let (reached, failure) : List Char × Failure := match read with
    | .ok rest => (rest, ⟨.invalidCodePoint, some 0, rest⟩)
    | .error f => (f.rest, f)
  match afterString tail.length (text.length + 1) text with
  | some rest =>
    if reached.length ≤ rest.length then
      let stop := Position.after (text.take (text.length - rest.length))
      ⟨.invalidCodePoint, some { stop with column := stop.column - contentSize tail }⟩
    else failure.locate text
  | none => failure.locate text

/-- The value of a JSON text given as bytes. -/
def parseBytes (bytes : List UInt8) : Except ReadError Json :=
  match Text.Utf8.decode? bytes with
  | some text => parse text
  | none => .error (strayFailure (Text.Utf8.units bytes.length bytes))

/-! ### Layout -/

/-- The value of a text on lines of its own, with one tab for each level. -/
def indent (text : String) : Except ReadError String := (parse text).map (Json.indented "\t")

def indentBytes (bytes : List UInt8) : Except ReadError String :=
  (parseBytes bytes).map (Json.indented "\t")

end IndexMapping.Json
