import IndexMapping.Toml.Basic

/-! The four kinds of TOML strings: basic ones with escapes, literal ones without, and each of
them over several lines. -/

namespace IndexMapping.Toml

/-! ### Reading -/

def hexDigit? (c : Char) : Option Nat :=
  if '0' ≤ c && c ≤ '9' then some (c.toNat - '0'.toNat)
  else if 'a' ≤ c && c ≤ 'f' then some (c.toNat - 'a'.toNat + 10)
  else if 'A' ≤ c && c ≤ 'F' then some (c.toNat - 'A'.toNat + 10)
  else none

/-- The character with a code point of so many hexadecimal digits. -/
def readCodePoint (digits : Nat) (cs : List Char) : Option (Char × List Char) := do
  let ds ← (cs.take digits).mapM hexDigit?
  let n := ds.foldl (fun n d => n * 16 + d) 0
  if ds.length = digits && n.isValidChar then some (Char.ofNat n, cs.drop digits) else none

/-- What follows a backslash. -/
def readEscape : Read Char
  | 'b' :: rest => some ('\x08', rest)
  | 't' :: rest => some ('\t', rest)
  | 'n' :: rest => some ('\n', rest)
  | 'f' :: rest => some ('\x0c', rest)
  | 'r' :: rest => some ('\r', rest)
  | '"' :: rest => some ('"', rest)
  | '\\' :: rest => some ('\\', rest)
  | 'u' :: rest => readCodePoint 4 rest
  | 'U' :: rest => readCodePoint 8 rest
  | _ => none

/-- A basic string after its opening quote; `acc` holds its characters, newest first. -/
def readBasic : Nat → List Char → Read (List Char)
  | 0, _, _ => none
  | _, _, [] => none
  | fuel + 1, acc, c :: cs =>
    if c = '"' then some (acc.reverse, cs)
    else if c = '\\' then do
      let (d, rest) ← readEscape cs
      readBasic fuel (d :: acc) rest
    else if isText c then readBasic fuel (c :: acc) cs
    else none

/-- A literal string after its opening quote. -/
def readLiteral (acc : List Char) : Read (List Char)
  | [] => none
  | c :: cs =>
    if c = '\x27' then some (acc.reverse, cs)
    else if isText c then readLiteral (c :: acc) cs
    else none

/-- Blanks and line breaks. -/
def skipBreaks : List Char → List Char
  | '\r' :: '\n' :: cs => skipBreaks cs
  | c :: cs => if isBlank c || c = '\n' then skipBreaks cs else c :: cs
  | [] => []

/-- What follows a backslash at the end of a line: the breaks after it do not count. -/
def joinedLine? (cs : List Char) : Option (List Char) :=
  match skipBlank cs with
  | '\n' :: rest => some (skipBreaks rest)
  | '\r' :: '\n' :: rest => some (skipBreaks rest)
  | _ => none

/-- Up to two quotes that belong to a string before the three that end it. -/
def closingQuotes (quote : Char) (acc : List Char) (cs : List Char) : List Char × List Char :=
  match cs with
  | a :: b :: rest =>
    if a = quote then
      if b = quote then ((quote :: quote :: acc).reverse, rest)
      else ((quote :: acc).reverse, b :: rest)
    else (acc.reverse, a :: b :: rest)
  | [a] => if a = quote then ((quote :: acc).reverse, []) else (acc.reverse, [a])
  | [] => (acc.reverse, [])

/-- A basic string over several lines, after its opening quotes. -/
def readMultiBasic : Nat → List Char → Read (List Char)
  | 0, _, _ => none
  | _, _, [] => none
  | _ + 1, acc, '"' :: '"' :: '"' :: rest => some (closingQuotes '"' acc rest)
  | fuel + 1, acc, '\r' :: '\n' :: rest => readMultiBasic fuel ('\n' :: acc) rest
  | fuel + 1, acc, c :: cs =>
    if c = '\\' then
      match joinedLine? cs with
      | some rest => readMultiBasic fuel acc rest
      | none => do
        let (d, rest) ← readEscape cs
        readMultiBasic fuel (d :: acc) rest
    else if isText c || c = '\n' then readMultiBasic fuel (c :: acc) cs
    else none

/-- A literal string over several lines, after its opening quotes. -/
def readMultiLiteral (acc : List Char) : Read (List Char)
  | [] => none
  | '\x27' :: '\x27' :: '\x27' :: rest => some (closingQuotes '\x27' acc rest)
  | '\r' :: '\n' :: rest => readMultiLiteral ('\n' :: acc) rest
  | c :: cs => if isText c || c = '\n' then readMultiLiteral (c :: acc) cs else none

/-- The line break right after opening quotes does not count. -/
def dropFirstBreak : List Char → List Char
  | '\n' :: rest => rest
  | '\r' :: '\n' :: rest => rest
  | rest => rest

/-- A string on one line. -/
def readLineString : Read String
  | '"' :: rest => (readBasic (rest.length + 1) [] rest).map fun (s, r) => (String.ofList s, r)
  | '\x27' :: rest => (readLiteral [] rest).map fun (s, r) => (String.ofList s, r)
  | _ => none

/-- A string of any kind. -/
def readString : Read String
  | '"' :: '"' :: '"' :: rest =>
    (readMultiBasic (rest.length + 1) [] (dropFirstBreak rest)).map fun (s, r) =>
      (String.ofList s, r)
  | '\x27' :: '\x27' :: '\x27' :: rest =>
    (readMultiLiteral [] (dropFirstBreak rest)).map fun (s, r) => (String.ofList s, r)
  | cs => readLineString cs

/-! ### Writing -/

/-- The longest run of a character. -/
def longestRun (quote : Char) (current longest : Nat) : List Char → Nat
  | [] => max current longest
  | c :: cs =>
    if c = quote then longestRun quote (current + 1) longest cs
    else longestRun quote 0 (max current longest) cs

/-- Characters that only an escape can write. -/
def needsCode (c : Char) : Bool := (c < ' ' && c ≠ '\t' && c ≠ '\n') || c = '\x7f'

def hexUpper (n : Nat) : List Char :=
  [0x1000, 0x100, 0x10, 1].map fun p => (Nat.digitChar (n / p % 16)).toUpper

/-- A character of a basic string, where quotes may stand as they are up to `allowed` in a row,
`run` being those right before; and the run after it. -/
def writeBasicChar (multi : Bool) (allowed run : Nat) (c : Char) : List Char × Nat :=
  if c = '"' then if allowed < run + 1 then (['\\', '"'], 0) else (['"'], run + 1)
  else if c = '\x08' then (['\\', 'b'], 0)
  else if c = '\t' then (['\\', 't'], 0)
  else if c = '\n' then (if multi then ['\n'] else ['\\', 'n'], 0)
  else if c = '\x0c' then (['\\', 'f'], 0)
  else if c = '\r' then (['\\', 'r'], 0)
  else if c = '\\' then (['\\', '\\'], 0)
  else if needsCode c then ('\\' :: 'u' :: hexUpper c.toNat, 0)
  else ([c], 0)

def writeBasicChars (multi : Bool) (allowed run : Nat) : List Char → List Char
  | [] => []
  | c :: cs =>
    let (written, run) := writeBasicChar multi allowed run c
    written ++ writeBasicChars multi allowed run cs

inductive StringStyle where
  | basic
  | literal
  | multiBasic
  | multiLiteral
  deriving DecidableEq, Repr

/-- The plainest style: no escapes if a style without them will do, one line before several,
basic before literal. -/
def styleOf (cs : List Char) : StringStyle :=
  let code := cs.any needsCode
  let backslash := cs.any (· = '\\')
  let lines := cs.any (· = '\n')
  let doubles := longestRun '"' 0 0 cs
  let singles := longestRun '\x27' 0 0 cs
  if !code && !backslash && doubles = 0 && !lines then .basic
  else if !code && singles = 0 && !lines then .literal
  else if !code && !backslash && doubles ≤ 2 then .multiBasic
  else if !code && singles ≤ 2 then .multiLiteral
  else if lines then .multiBasic
  else .basic

/-- A string in a style; with line breaks in it, one follows the opening quotes. -/
def writeStyled (style : StringStyle) (cs : List Char) : List Char :=
  let first := if cs.any (· = '\n') then ['\n'] else []
  match style with
  | .basic => '"' :: writeBasicChars false 0 0 cs ++ ['"']
  | .literal => '\x27' :: cs ++ ['\x27']
  | .multiBasic => ['"', '"', '"'] ++ first ++ writeBasicChars true 2 0 cs ++ ['"', '"', '"']
  | .multiLiteral => ['\x27', '\x27', '\x27'] ++ first ++ cs ++ ['\x27', '\x27', '\x27']

def writeString (s : String) : List Char := writeStyled (styleOf s.toList) s.toList

end IndexMapping.Toml
