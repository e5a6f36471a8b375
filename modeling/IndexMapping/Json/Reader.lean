import IndexMapping.Decimal.Binary64
import IndexMapping.Json.Failure

/-! Reading JSON text. A reader takes the text and gives a value with the text that is
left, or a failure. -/

namespace IndexMapping.Json

abbrev Read (α : Type) := List Char → Except Failure (α × List Char)

/-- A failure at what has been consumed. -/
def failBehind {α : Type} (cause : Cause) (rest : List Char) : Except Failure α :=
  .error ⟨cause, some 0, rest⟩

/-- A failure at the next byte. -/
def failAhead {α : Type} (cause : Cause) (rest : List Char) : Except Failure α :=
  .error ⟨cause, some 1, rest⟩

def isBlank (c : Char) : Bool := c = ' ' || c = '\n' || c = '\t' || c = '\r'

def skipBlank (cs : List Char) : List Char := cs.dropWhile isBlank

def isDigit (c : Char) : Bool := '0' ≤ c && c ≤ '9'

def digitValue (c : Char) : Nat := c.toNat - '0'.toNat

/-- The rest of a literal word. -/
def readWord : List Char → Read Unit
  | [], cs => .ok ((), cs)
  | _ :: _, [] => failBehind .endInValue []
  | w :: ws, c :: cs => if c = w then readWord ws cs else failAhead .expectedIdent (c :: cs)

/-! ### Numbers -/

/-- The greatest whole number that a significand can hold. -/
def maxSignificand : Nat := Decimal.maxUnsigned

/-- `significand / 10 ^ e`, where a divisor beyond the range is split into two. -/
def divideByTen (x : Decimal.Binary64) (e : Nat) : Decimal.Binary64 :=
  if e ≤ 308 then (x.div (tenTo e)).getD x
  else if x.isZero then x
  else divideByTen ((x.div (tenTo 308)).getD x) (e - 308)
termination_by e
where
  tenTo (k : Nat) : Decimal.Binary64 := (Decimal.Binary64.ofQuotient (Nat.pow 10 k) 1).getD .zero

/-- The significand as a float, multiplied or divided once by a power of ten. -/
def assemble (negative : Bool) (significand : Nat) (exponent : Int) (rest : List Char) :
    Except Failure (Number × List Char) :=
  let x := (Decimal.Binary64.ofQuotient significand 1).getD .zero
  let signed (y : Decimal.Binary64) : Number := .float { y with negative }
  if 0 ≤ exponent then
    if 308 < exponent then
      if x.isZero then .ok (signed x, rest) else failBehind .numberOutOfRange rest
    else match x.mul (divideByTen.tenTo exponent.toNat) with
      | some y => .ok (signed y, rest)
      | none => failBehind .numberOutOfRange rest
  else .ok (signed (divideByTen x exponent.natAbs), rest)

/-- Digits gathered into a significand while they fit: how many were taken, and what is left. -/
def gather (significand : Nat) (taken : Nat) : List Char → Nat × Nat × List Char
  | [] => (significand, taken, [])
  | c :: cs =>
    if isDigit c then
      let s := significand * 10 + digitValue c
      if maxSignificand < s then (significand, taken, c :: cs) else gather s (taken + 1) cs
    else (significand, taken, c :: cs)

/-- The greatest exponent that is told from a larger one. -/
def maxExponent : Nat := Nat.pow 2 31 - 1

/-- Digits of an exponent; the flag tells that they ran over, right after the digit that did. -/
def gatherExponent (e : Nat) : List Char → Nat × Bool × List Char
  | [] => (e, false, [])
  | c :: cs =>
    if isDigit c then
      let e' := e * 10 + digitValue c
      if maxExponent < e' then (e, true, cs) else gatherExponent e' cs
    else (e, false, c :: cs)

/-- What follows the letter of an exponent. -/
def readExponent (negative : Bool) (significand : Nat) (exponent : Int) (cs : List Char) :
    Except Failure (Number × List Char) :=
  let (down, cs) := match cs with
    | '+' :: r => (false, r)
    | '-' :: r => (true, r)
    | r => (false, r)
  match cs with
  | [] => failBehind .endInValue []
  | c :: rest =>
    if isDigit c then
      match gatherExponent (digitValue c) rest with
      | (_, true, rest) =>
        if significand ≠ 0 && !down then failBehind .numberOutOfRange rest
        else .ok (.float { Decimal.Binary64.zero with negative }, rest.dropWhile isDigit)
      | (e, false, rest) =>
        assemble negative significand (if down then exponent - e else exponent + e) rest
    else failAhead .invalidNumber (c :: rest)

def isExponentLetter (c : Char) : Bool := c = 'e' || c = 'E'

/-- What follows the digits of a float. -/
def readFloatEnd (negative : Bool) (significand : Nat) (exponent : Int) :
    List Char → Except Failure (Number × List Char)
  | [] => assemble negative significand exponent []
  | c :: rest =>
    if isExponentLetter c then readExponent negative significand exponent rest
    else assemble negative significand exponent (c :: rest)

/-- What follows a decimal point. -/
def readFraction (negative : Bool) (significand : Nat) (exponent : Int) (cs : List Char) :
    Except Failure (Number × List Char) :=
  let (s, taken, rest) := gather significand 0 cs
  match taken, rest with
  | 0, [] => failAhead .endInValue []
  | 0, c :: r =>
    if isDigit c then readFloatEnd negative s exponent ((c :: r).dropWhile isDigit)
    else failAhead .invalidNumber (c :: r)
  | n + 1, r => readFloatEnd negative s (exponent - (n + 1 : Nat)) (r.dropWhile isDigit)

/-- A whole number with a sign; minus zero and what is out of range are floats. -/
def wholeNumber (negative : Bool) (significand : Nat) : Number :=
  if !negative then .integer significand
  else if significand = 0 || !Decimal.fitsSigned (-significand) then
    .float { (Decimal.Binary64.ofQuotient significand 1).getD .zero with negative := true }
  else .integer (-significand)

/-- What follows whole digits of which `dropped` did not fit. -/
def readNumberEnd (negative : Bool) (significand : Nat) (dropped : Nat) :
    List Char → Except Failure (Number × List Char)
  | [] =>
    if dropped = 0 then .ok (wholeNumber negative significand, [])
    else assemble negative significand dropped []
  | c :: rest =>
    if c = '.' then readFraction negative significand dropped rest
    else if isExponentLetter c then readExponent negative significand dropped rest
    else if dropped = 0 then .ok (wholeNumber negative significand, c :: rest)
    else assemble negative significand dropped (c :: rest)

/-- A number after its sign. -/
def readNumber (negative : Bool) : Read Number
  | [] => failBehind .endInValue []
  | c :: cs =>
    if c = '0' then
      match cs with
      | d :: r =>
        if isDigit d then failAhead .invalidNumber (d :: r) else readNumberEnd negative 0 0 (d :: r)
      | [] => readNumberEnd negative 0 0 []
    else if isDigit c then
      let (s, _, rest) := gather (digitValue c) 0 cs
      let more := rest.takeWhile isDigit
      readNumberEnd negative s more.length (rest.drop more.length)
    else failAhead .invalidNumber (c :: cs)

/-! ### Strings -/

def hexValue (c : Char) : Option Nat :=
  if isDigit c then some (digitValue c)
  else if 'a' ≤ c && c ≤ 'f' then some (c.toNat - 'a'.toNat + 10)
  else if 'A' ≤ c && c ≤ 'F' then some (c.toNat - 'A'.toNat + 10)
  else none

/-- A failure `n` bytes further on; the place may lie within a character. -/
def failFurther {α : Type} (cause : Cause) : Nat → List Char → Except Failure α
  | 0, cs => failBehind cause cs
  | _, [] => failBehind .endInString []
  | n + 1, c :: cs =>
    if c.utf8Size ≤ n + 1 then failFurther cause (n + 1 - c.utf8Size) cs
    else .error ⟨cause, some (n + 1), c :: cs⟩
termination_by n => n
decreasing_by have := c.utf8Size_pos; omega

/-- The four digits of a `\u` escape. -/
def readHex : Read Nat
  | a :: b :: c :: d :: rest =>
    match hexValue a, hexValue b, hexValue c, hexValue d with
    | some p, some q, some r, some s => .ok (((p * 16 + q) * 16 + r) * 16 + s, rest)
    | _, _, _, _ => failFurther .invalidEscape 4 (a :: b :: c :: d :: rest)
  | cs => failFurther .invalidEscape 4 cs

def isLeadingSurrogate (n : Nat) : Bool := 0xD800 ≤ n && n ≤ 0xDBFF

def isTrailingSurrogate (n : Nat) : Bool := 0xDC00 ≤ n && n ≤ 0xDFFF

/-- What follows a leading surrogate: the escape of a trailing one. -/
def readTrailing (leading : Nat) : Read Char
  | [] => failBehind .endInString []
  | '\\' :: [] => failBehind .endInString []
  | '\\' :: 'u' :: rest => do
    let (n, rest) ← readHex rest
    if isTrailingSurrogate n then
      .ok (Char.ofNat ((leading - 0xD800) * 0x400 + (n - 0xDC00) + 0x10000), rest)
    else failBehind .loneSurrogate rest
  | '\\' :: rest => failAhead .endOfHexEscape rest
  | rest => failAhead .endOfHexEscape rest

/-- What follows `\u`: one character, written as one escape or as a pair of surrogates. -/
def readCodePoint (cs : List Char) : Except Failure (Char × List Char) := do
  let (n, rest) ← readHex cs
  if isTrailingSurrogate n then failBehind .loneSurrogate rest
  else if isLeadingSurrogate n then readTrailing n rest
  else .ok (Char.ofNat n, rest)

/-- The character that a one-letter escape stands for. -/
def shortEscape : Char → Option Char
  | '"' => some '"'
  | '\\' => some '\\'
  | '/' => some '/'
  | 'b' => some '\x08'
  | 'f' => some '\x0c'
  | 'n' => some '\n'
  | 'r' => some '\r'
  | 't' => some '\t'
  | _ => none

/-- What follows a backslash. -/
def readEscape : Read Char
  | [] => failBehind .endInString []
  | c :: rest =>
    if c = 'u' then readCodePoint rest
    else match shortEscape c with
      | some d => .ok (d, rest)
      | none => failAhead .invalidEscape (c :: rest)

/-- The characters of a string up to its closing quote, `acc` being those read so far, newest
first. -/
def readChars : Nat → List Char → Read (List Char)
  | 0, _, cs => failBehind .endInString cs
  | _, _, [] => failBehind .endInString []
  | fuel + 1, acc, c :: cs =>
    if c = '"' then .ok (acc.reverse, cs)
    else if c = '\\' then do
      let (d, rest) ← readEscape cs
      readChars fuel (d :: acc) rest
    else if c < ' ' then failAhead .controlCharacter (c :: cs)
    else readChars fuel (c :: acc) cs

/-- A string after its opening quote. -/
def readString (cs : List Char) : Except Failure (String × List Char) := do
  let (s, rest) ← readChars (cs.length + 1) [] cs
  .ok (String.ofList s, rest)

/-! ### Brackets -/

/-- Moves to the next element of a list; `none` stands before the closing bracket. -/
def nextElement (first : Bool) (cs : List Char) : Except Failure (Option Unit × List Char) :=
  match skipBlank cs with
  | [] => failAhead .endInList []
  | ']' :: rest => .ok (none, ']' :: rest)
  | c :: rest =>
    if first then .ok (some (), c :: rest)
    else if c = ',' then
      match skipBlank rest with
      | [] => failAhead .endInValue []
      | ']' :: rest => failAhead .trailingComma (']' :: rest)
      | rest => .ok (some (), rest)
    else failAhead .expectedListSeparator (c :: rest)

/-- Moves past the opening quote of the next member's name; `none` stands before the closing
bracket. -/
def nextName (first : Bool) (cs : List Char) : Except Failure (Option Unit × List Char) :=
  match skipBlank cs with
  | [] => failAhead .endInObject []
  | '\x7d' :: rest => .ok (none, '\x7d' :: rest)
  | c :: rest =>
    if first then
      if c = '"' then .ok (some (), rest) else failAhead .keyNotString (c :: rest)
    else if c = ',' then
      match skipBlank rest with
      | [] => failAhead .endInValue []
      | '"' :: rest => .ok (some (), rest)
      | '\x7d' :: rest => failAhead .trailingComma ('\x7d' :: rest)
      | rest => failAhead .keyNotString rest
    else failAhead .expectedObjectSeparator (c :: rest)

/-- The colon after a member's name. -/
def readColon (cs : List Char) : Except Failure (Unit × List Char) :=
  match skipBlank cs with
  | [] => failAhead .endInObject []
  | ':' :: rest => .ok ((), rest)
  | rest => failAhead .expectedColon rest

/-- The elements of a list from after its opening bracket to after its closing one. -/
def readElements {α : Type} (element : Read α) : Nat → List α → Read (List α)
  | 0, _, cs => failAhead .endInList cs
  | fuel + 1, acc, cs => do
    match ← nextElement acc.isEmpty cs with
    | (none, rest) => .ok (acc.reverse, rest.drop 1)
    | (some (), rest) =>
      let (x, rest) ← element rest
      readElements element fuel (x :: acc) rest

/-- The members of an object, in the same way. -/
def readMembers {α : Type} (value : Read α) : Nat → List (String × α) → Read (List (String × α))
  | 0, _, cs => failAhead .endInObject cs
  | fuel + 1, acc, cs => do
    match ← nextName acc.isEmpty cs with
    | (none, rest) => .ok (acc, rest.drop 1)
    | (some (), rest) =>
      let (name, rest) ← readString rest
      let (_, rest) ← readColon rest
      let (v, rest) ← value rest
      readMembers value fuel (insertMember name v acc) rest

/-! ### Values -/

/-- How many brackets may be open. -/
def depthLimit : Nat := 127

/-- A value that opens at most `budget` brackets within each other. -/
def readValue (budget : Nat) (cs : List Char) : Except Failure (Json × List Char) :=
  match skipBlank cs with
  | [] => failAhead .endInValue []
  | 'n' :: rest => do
    let (_, rest) ← readWord ['u', 'l', 'l'] rest
    .ok (.null, rest)
  | 't' :: rest => do
    let (_, rest) ← readWord ['r', 'u', 'e'] rest
    .ok (.bool true, rest)
  | 'f' :: rest => do
    let (_, rest) ← readWord ['a', 'l', 's', 'e'] rest
    .ok (.bool false, rest)
  | '-' :: rest => do
    let (n, rest) ← readNumber true rest
    .ok (.number n, rest)
  | '"' :: rest => do
    let (s, rest) ← readString rest
    .ok (.string s, rest)
  | '[' :: rest =>
    match budget with
    | 0 => failAhead .tooDeep ('[' :: rest)
    | budget + 1 => do
      let (xs, rest) ← readElements (fun r => readValue budget r) (rest.length + 1) [] rest
      .ok (.array xs, rest)
  | '\x7b' :: rest =>
    match budget with
    | 0 => failAhead .tooDeep ('\x7b' :: rest)
    | budget + 1 => do
      let (ms, rest) ← readMembers (fun r => readValue budget r) (rest.length + 1) [] rest
      .ok (.object ms, rest)
  | c :: rest =>
    if isDigit c then do
      let (n, rest) ← readNumber false (c :: rest)
      .ok (.number n, rest)
    else failAhead .expectedValue (c :: rest)

/-- Only blanks may follow. -/
def readEnd (cs : List Char) : Except Failure Unit :=
  match skipBlank cs with
  | [] => .ok ()
  | rest => failAhead .trailingCharacters rest

/-- One value that is the whole text. -/
def readWhole {α : Type} (read : Read α) (text : List Char) : Except ReadError α :=
  let outcome : Except Failure α := do
    let (v, rest) ← read text
    readEnd rest
    pure v
  outcome.mapError (Failure.locate text)

/-- The value of a JSON text. -/
def parse (text : String) : Except ReadError Json := readWhole (readValue depthLimit) text.toList

end IndexMapping.Json
