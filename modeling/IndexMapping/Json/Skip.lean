import IndexMapping.Json.Reader

/-! Passing over a value that nobody asks for. Only its shape is checked: neither the
depth, nor the range of its numbers, nor the surrogates in its strings. -/

namespace IndexMapping.Json.Skip

/-- What follows the letter of an exponent. -/
def exponent (cs : List Char) : Except Failure (Unit × List Char) :=
  let cs := match cs with
    | '+' :: r => r
    | '-' :: r => r
    | r => r
  match cs with
  | [] => failBehind .invalidNumber []
  | c :: rest =>
    if isDigit c then .ok ((), rest.dropWhile isDigit) else failAhead .invalidNumber (c :: rest)

/-- What may follow the digits before an exponent. -/
def afterDigits : Read Unit
  | [] => .ok ((), [])
  | c :: rest => if isExponentLetter c then exponent rest else .ok ((), c :: rest)

/-- What follows a decimal point. -/
def fraction : Read Unit
  | [] => failAhead .invalidNumber []
  | c :: rest =>
    if isDigit c then afterDigits (rest.dropWhile isDigit) else failAhead .invalidNumber (c :: rest)

/-- What may follow whole digits. -/
def afterWhole : Read Unit
  | [] => .ok ((), [])
  | c :: rest => if c = '.' then fraction rest else afterDigits (c :: rest)

/-- A number after its sign. -/
def number : Read Unit
  | [] => failBehind .invalidNumber []
  | c :: cs =>
    if c = '0' then
      match cs with
      | d :: r => if isDigit d then failAhead .invalidNumber (d :: r) else afterWhole (d :: r)
      | [] => .ok ((), [])
    else if isDigit c then afterWhole (cs.dropWhile isDigit)
    else failAhead .invalidNumber (c :: cs)

/-- A string after its opening quote. -/
def string : Nat → Read Unit
  | 0, cs => failBehind .endInString cs
  | _, [] => failBehind .endInString []
  | fuel + 1, c :: cs =>
    if c = '"' then .ok ((), cs)
    else if c = '\\' then
      match cs with
      | [] => failBehind .endInString []
      | e :: rest =>
        if e = 'u' then do
          let (_, rest) ← readHex rest
          string fuel rest
        else if (shortEscape e).isSome then string fuel rest
        else failAhead .invalidEscape (e :: rest)
    else if c < ' ' then failBehind .controlCharacter (c :: cs)
    else string fuel cs

inductive Bracket where
  | list
  | object
  deriving DecidableEq, Repr

/-- What comes next within the innermost open bracket. -/
inductive Next where
  | element
  | name
  | done
  deriving Repr

namespace Bracket

def closing : Bracket → Char
  | list => ']'
  | object => '\x7d'

def atEnd : Bracket → Cause
  | list => .endInList
  | object => .endInObject

def expectedSeparator : Bracket → Cause
  | list => .expectedListSeparator
  | object => .expectedObjectSeparator

def inside : Bracket → Next
  | list => .element
  | object => .name

end Bracket

/-- After a value: closes as many of the open brackets as the text does. -/
def afterValue : List Bracket → List Char → Except Failure (Next × List Bracket × List Char)
  | [], cs => .ok (.done, [], cs)
  | b :: outer, cs =>
    match skipBlank cs with
    | [] => failAhead b.atEnd []
    | c :: rest =>
      if c = ',' then .ok (b.inside, b :: outer, rest)
      else if c = b.closing then afterValue outer rest
      else failAhead b.expectedSeparator (c :: rest)

/-- After an opening bracket: closes it if it is empty. -/
def afterOpening (b : Bracket) (outer : List Bracket) (cs : List Char) :
    Except Failure (Next × List Bracket × List Char) :=
  match skipBlank cs with
  | [] => failAhead b.atEnd []
  | c :: rest =>
    if c = b.closing then afterValue outer rest else .ok (b.inside, b :: outer, c :: rest)

/-- The name of a member with its colon. -/
def name (cs : List Char) : Except Failure (Unit × List Char) :=
  match skipBlank cs with
  | [] => failAhead .endInObject []
  | '"' :: rest => do
    let (_, rest) ← string (rest.length + 1) rest
    readColon rest
  | rest => failAhead .keyNotString rest

/-- The start of a value: all of a scalar, or an opening bracket. -/
def start (cs : List Char) : Except Failure (Option Bracket × List Char) :=
  let scalar (r : Except Failure (Unit × List Char)) :
      Except Failure (Option Bracket × List Char) :=
    r.map fun (_, rest) => (none, rest)
  match skipBlank cs with
  | [] => failAhead .endInValue []
  | 'n' :: rest => scalar (readWord ['u', 'l', 'l'] rest)
  | 't' :: rest => scalar (readWord ['r', 'u', 'e'] rest)
  | 'f' :: rest => scalar (readWord ['a', 'l', 's', 'e'] rest)
  | '-' :: rest => scalar (number rest)
  | '"' :: rest => scalar (string (rest.length + 1) rest)
  | '[' :: rest => .ok (some .list, rest)
  | '\x7b' :: rest => .ok (some .object, rest)
  | c :: rest =>
    if isDigit c then scalar (number (c :: rest)) else failAhead .expectedValue (c :: rest)

/-- Values and names until all brackets are closed. -/
def run : Nat → Next → List Bracket → Read Unit
  | 0, _, _, cs => failAhead .endInValue cs
  | _, .done, _, cs => .ok ((), cs)
  | fuel + 1, .name, stack, cs => do
    let (_, rest) ← name cs
    run fuel .element stack rest
  | fuel + 1, .element, stack, cs => do
    let (opened, rest) ← start cs
    let (next, stack, rest) ← match opened with
      | none => afterValue stack rest
      | some b => afterOpening b stack rest
    run fuel next stack rest

/-- A value of any depth. -/
def value (cs : List Char) : Except Failure (Unit × List Char) :=
  run (2 * cs.length + 2) .element [] cs

end IndexMapping.Json.Skip
