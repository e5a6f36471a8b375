import IndexMapping.Decimal.Binary64
import IndexMapping.Toml.Basic

/-! Numbers, dates and times in TOML texts. -/

namespace IndexMapping.Toml

def isDigit (c : Char) : Bool := '0' ≤ c && c ≤ '9'

def digit? (base : Nat) (c : Char) : Option Nat :=
  let value :=
    if isDigit c then some (c.toNat - '0'.toNat)
    else if 'a' ≤ c && c ≤ 'f' then some (c.toNat - 'a'.toNat + 10)
    else if 'A' ≤ c && c ≤ 'F' then some (c.toNat - 'A'.toNat + 10)
    else none
  value.filter (· < base)

/-- Digits, where an underscore may stand between two of them. -/
def digits? (base : Nat) : List Char → Option (List Nat)
  | [] => none
  | [c] => (digit? base c).map ([·])
  | c :: '_' :: cs => do
    let d ← digit? base c
    let ds ← digits? base cs
    some (d :: ds)
  | c :: cs => do
    let d ← digit? base c
    let ds ← digits? base cs
    some (d :: ds)

def ofDigits (base : Nat) (ds : List Nat) : Nat := ds.foldl (fun n d => n * base + d) 0

/-- A sign with what follows it. -/
def splitSign : List Char → Bool × List Char
  | '+' :: cs => (false, cs)
  | '-' :: cs => (true, cs)
  | cs => (false, cs)

/-- Digits without a zero before them. -/
def wholeDigits? (cs : List Char) : Option (List Nat) :=
  (digits? 10 cs).filter fun ds => ds.length = 1 || ds.head? ≠ some 0

def inRange (n : Int) : Option Toml :=
  if Decimal.fitsSigned n then some (.integer n) else none

def integer? (cs : List Char) : Option Toml :=
  match cs with
  | '0' :: 'x' :: ds => (digits? 16 ds).bind fun ds => inRange (ofDigits 16 ds)
  | '0' :: 'o' :: ds => (digits? 8 ds).bind fun ds => inRange (ofDigits 8 ds)
  | '0' :: 'b' :: ds => (digits? 2 ds).bind fun ds => inRange (ofDigits 2 ds)
  | cs =>
    let (negative, cs) := splitSign cs
    (wholeDigits? cs).bind fun ds =>
      inRange (if negative then -(ofDigits 10 ds : Int) else ofDigits 10 ds)

/-- The exponent that follows its letter. -/
def exponent? (cs : List Char) : Option Int :=
  let (negative, cs) := splitSign cs
  (digits? 10 cs).map fun ds => if negative then -(ofDigits 10 ds : Int) else ofDigits 10 ds

def isExponentLetter (c : Char) : Bool := c = 'e' || c = 'E'

def specialFloat? : List Char → Option Toml
  | ['i', 'n', 'f'] => some (.float (.infinity false))
  | ['+', 'i', 'n', 'f'] => some (.float (.infinity false))
  | ['-', 'i', 'n', 'f'] => some (.float (.infinity true))
  | ['n', 'a', 'n'] => some (.float .nan)
  | ['+', 'n', 'a', 'n'] => some (.float .nan)
  | ['-', 'n', 'a', 'n'] => some (.float .nan)
  | _ => none

/-- A number with a fraction, an exponent or both; one that is too large is refused. -/
def float? (cs : List Char) : Option Toml := do
  let (negative, cs) := splitSign cs
  let mantissa := cs.takeWhile fun c => !isExponentLetter c
  let whole := mantissa.takeWhile (· ≠ '.')
  let ws ← wholeDigits? whole
  let fs ← match mantissa.drop whole.length with
    | [] => some []
    | _ :: fraction => digits? 10 fraction
  let e ← match cs.drop mantissa.length with
    | [] => if mantissa.length = whole.length then none else some 0
    | _ :: ds => exponent? ds
  let x := Decimal.Real64.ofDecimal negative (ofDigits 10 (ws ++ fs)) (e - fs.length)
  if x = .infinity false then none else some (.float x)

/-! ### Dates and times -/

/-- A number of exactly so many digits. -/
def fixed? (n : Nat) (cs : List Char) : Option (Nat × List Char) := do
  let ds ← (cs.take n).mapM (digit? 10)
  if ds.length = n then some (ofDigits 10 ds, cs.drop n) else none

def literal? (c : Char) : List Char → Option (List Char)
  | d :: cs => if d = c then some cs else none
  | [] => none

def isLeap (year : Nat) : Bool := year % 4 = 0 && (year % 100 ≠ 0 || year % 400 = 0)

def daysIn (year month : Nat) : Nat :=
  if month = 2 then if isLeap year then 29 else 28
  else if month = 4 || month = 6 || month = 9 || month = 11 then 30
  else 31

/-- A number with at least so many digits. -/
def padded (n : Nat) (value : Nat) : String :=
  let ds := Nat.toDigits 10 value
  String.ofList (List.replicate (n - ds.length) '0' ++ ds)

def date? (cs : List Char) : Option (String × List Char) := do
  let (year, cs) ← fixed? 4 cs
  let cs ← literal? '-' cs
  let (month, cs) ← fixed? 2 cs
  let cs ← literal? '-' cs
  let (day, cs) ← fixed? 2 cs
  if 1 ≤ month && month ≤ 12 && 1 ≤ day && day ≤ daysIn year month then
    some (padded 4 year ++ "-" ++ padded 2 month ++ "-" ++ padded 2 day, cs)
  else none

/-- The nine digits of a second that count, without zeros at the end. -/
def fraction (ds : List Char) : String :=
  let kept := ((ds.take 9).reverse.dropWhile (· = '0')).reverse
  if kept.isEmpty then "" else "." ++ String.ofList kept

def time? (cs : List Char) : Option (String × List Char) := do
  let (hour, cs) ← fixed? 2 cs
  let cs ← literal? ':' cs
  let (minute, cs) ← fixed? 2 cs
  let cs ← literal? ':' cs
  let (second, cs) ← fixed? 2 cs
  if hour ≤ 23 && minute ≤ 59 && second ≤ 60 then
    let text := padded 2 hour ++ ":" ++ padded 2 minute ++ ":" ++ padded 2 second
    match cs with
    | '.' :: rest =>
      let ds := rest.takeWhile isDigit
      if ds.isEmpty then none else some (text ++ fraction ds, rest.drop ds.length)
    | rest => some (text, rest)
  else none

def offset? (cs : List Char) : Option String := do
  match cs with
  | [] => some ""
  | ['Z'] => some "Z"
  | ['z'] => some "Z"
  | sign :: cs =>
    let (hour, cs) ← fixed? 2 cs
    let cs ← literal? ':' cs
    let (minute, cs) ← fixed? 2 cs
    if (sign = '+' || sign = '-') && hour ≤ 23 && minute ≤ 59 && cs.isEmpty then
      let sign := if hour = 0 && minute = 0 then '+' else sign
      some (String.ofList [sign] ++ padded 2 hour ++ ":" ++ padded 2 minute)
    else none

/-- A date, a time or both, in normal form. -/
def dateTime? (cs : List Char) : Option String :=
  match date? cs with
  | some (date, []) => some date
  | some (date, c :: cs) => do
    if c = 'T' || c = 't' || c = ' ' then
      let (time, cs) ← time? cs
      let offset ← offset? cs
      some (date ++ "T" ++ time ++ offset)
    else none
  | none => match time? cs with
    | some (time, []) => some time
    | _ => none

/-! ### Words -/

def word? (cs : List Char) : Option Toml :=
  match cs with
  | ['t', 'r', 'u', 'e'] => some (.bool true)
  | ['f', 'a', 'l', 's', 'e'] => some (.bool false)
  | cs =>
    (integer? cs).or ((float? cs).or ((specialFloat? cs).or ((dateTime? cs).map .dateTime)))

def inWord (c : Char) : Bool :=
  !(isBlank c || c = '\n' || c = '\r' || c = ',' || c = ']' || c = '\x7d' || c = '#')

/-- A value without quotes and brackets. A blank may stand between a date and a time. -/
def readWord (cs : List Char) : Option (Toml × List Char) :=
  let word := cs.takeWhile inWord
  let rest := cs.drop word.length
  match date? word, rest with
  | some (_, []), ' ' :: a :: b :: ':' :: more =>
    if isDigit a && isDigit b then
      let time := a :: b :: ':' :: more.takeWhile inWord
      (word? (word ++ ' ' :: time)).map fun v => (v, rest.drop (time.length + 1))
    else (word? word).map fun v => (v, rest)
  | _, _ => (word? word).map fun v => (v, rest)

end IndexMapping.Toml
