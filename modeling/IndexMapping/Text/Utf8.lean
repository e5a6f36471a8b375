/-! Texts from bytes. -/

namespace IndexMapping.Text.Utf8

/-- A byte that continues a character. -/
def continuation? (b : UInt8) : Option Nat :=
  if 0x80 ≤ b && b ≤ 0xBF then some (b.toNat - 0x80) else none

/-- The character that the first bytes form, with the bytes after it. -/
def firstChar : List UInt8 → Option (Char × List UInt8)
  | [] => none
  | a :: rest =>
    if a < 0x80 then some (Char.ofNat a.toNat, rest)
    else if 0xC2 ≤ a && a ≤ 0xDF then
      match rest with
      | b :: rest => do
        let y ← continuation? b
        some (Char.ofNat ((a.toNat - 0xC0) * 0x40 + y), rest)
      | _ => none
    else if 0xE0 ≤ a && a ≤ 0xEF then
      match rest with
      | b :: c :: rest => do
        let y ← continuation? b
        let z ← continuation? c
        let n := (a.toNat - 0xE0) * 0x1000 + y * 0x40 + z
        if 0x800 ≤ n && !(0xD800 ≤ n && n ≤ 0xDFFF) then some (Char.ofNat n, rest) else none
      | _ => none
    else if 0xF0 ≤ a && a ≤ 0xF4 then
      match rest with
      | b :: c :: d :: rest => do
        let y ← continuation? b
        let z ← continuation? c
        let w ← continuation? d
        let n := (a.toNat - 0xF0) * 0x40000 + y * 0x1000 + z * 0x40 + w
        if 0x10000 ≤ n && n ≤ 0x10FFFF then some (Char.ofNat n, rest) else none
      | _ => none
    else none

/-- The characters that the bytes form, and a stray mark for each byte that belongs to none. -/
def units : Nat → List UInt8 → List (Option Char)
  | 0, _ => []
  | _, [] => []
  | fuel + 1, b :: bs =>
    match firstChar (b :: bs) with
    | some (c, rest) => some c :: units fuel rest
    | none => none :: units fuel bs

/-- The text of some bytes, if they are one. -/
def decode? (bytes : List UInt8) : Option String :=
  ((units bytes.length bytes).mapM id).map String.ofList

/-- The bytes of a text. -/
def encode (s : String) : List UInt8 := s.toUTF8.toList

end IndexMapping.Text.Utf8
