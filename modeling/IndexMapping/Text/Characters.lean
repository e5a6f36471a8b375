import IndexMapping.Text.CaseContextTable
import IndexMapping.Text.CaseTable
import IndexMapping.Text.HiddenTable

/-! What characters are. Letter case: which characters are upper case or lower case, and what a
character becomes in lower case. Quotation: which characters a message shows as themselves. ASCII
is decided by its ranges, all else by table. -/

namespace IndexMapping.Text

/-! ### Sets of code points, as tables write them -/

/-- Membership of `n` in the run `first, first + step, …, last`. -/
def inRun (n : Nat) : Nat × Nat × Nat → Bool
  | (first, last, step) => first ≤ n && n ≤ last && (n - first) % step == 0

/-- Membership of `n` in the set whose membership changes at each listed code point, from no
member on: whether an odd number of the changes are at most `n`. -/
def afterOddChanges (n : Nat) : List Nat → Bool
  | [] => false
  | b :: bs => if n < b then false else !afterOddChanges n bs

/-! ### Letter case -/

def isUppercase (c : Char) : Bool :=
  if c.val < 0x80 then 'A' ≤ c && c ≤ 'Z' else CaseTable.uppercase.any (inRun c.toNat)

def isLowercase (c : Char) : Bool :=
  if c.val < 0x80 then 'a' ≤ c && c ≤ 'z' else CaseTable.lowercase.any (inRun c.toNat)

/-- The dotted capital I is the only character with two characters in lower case. -/
def lowercase (c : Char) : List Char :=
  if c.val < 0x80 then
    [if 'A' ≤ c && c ≤ 'Z' then Char.ofNat (c.toNat + 32) else c]
  else if c = 'İ' then ['i', '\u0307']
  else
    let run := CaseTable.shift.find? fun (first, last, step, _) =>
      inRun c.toNat (first, last, step)
    match run with
    | some (_, _, _, d) => [Char.ofNat (c.toNat + d).toNat]
    | none => [c]

/-- Lower case within ASCII. -/
def asciiLower (s : String) : String :=
  String.ofList (s.toList.map fun c => if 'A' ≤ c && c ≤ 'Z' then Char.ofNat (c.toNat + 32) else c)

/-! ### Letter case of texts -/

/-- Characters that the case of a text passes over. -/
def isCaseIgnorable (c : Char) : Bool := afterOddChanges c.toNat CaseContextTable.ignorable

def isCased (c : Char) : Bool :=
  isUppercase c || isLowercase c || afterOddChanges c.toNat CaseContextTable.titlecase

/-- Whether the first character that is not passed over has a case. -/
def startsCased (cs : List Char) : Bool :=
  match cs.dropWhile isCaseIgnorable with
  | c :: _ => isCased c
  | [] => false

/-- Lower case of what follows the characters of `before`, newest first. A capital sigma at the
end of a word has a form of its own. -/
def lowerAfter (before : List Char) : List Char → List Char
  | [] => []
  | c :: cs =>
    let lowered :=
      if c = 'Σ' then [if startsCased before && !startsCased cs then 'ς' else 'σ'] else lowercase c
    lowered ++ lowerAfter (c :: before) cs

/-- Lower case of a text. -/
def lower (s : String) : String := String.ofList (lowerAfter [] s.toList)

/-! ### Quotations

Messages show a text in double quotes, with quotes, backslashes and characters that cannot be seen
written as escapes. -/

/-- Characters that a quotation shows as themselves. -/
def isVisible (c : Char) : Bool :=
  if c.val < 0x7f then ' ' ≤ c else !afterOddChanges c.toNat HiddenTable.changes

def hexDigits (n : Nat) : List Char := Nat.toDigits 16 n

/-- Written form of one character within a quotation. -/
def quoteChar (c : Char) : List Char :=
  if c = '"' then ['\\', '"']
  else if c = '\\' then ['\\', '\\']
  else if c = '\n' then ['\\', 'n']
  else if c = '\r' then ['\\', 'r']
  else if c = '\t' then ['\\', 't']
  else if c = '\x00' then ['\\', '0']
  else if isVisible c then [c]
  else ['\\', 'u', '\x7b'] ++ hexDigits c.toNat ++ ['\x7d']

def quote (s : String) : String :=
  String.ofList ('"' :: s.toList.flatMap quoteChar ++ ['"'])

end IndexMapping.Text
