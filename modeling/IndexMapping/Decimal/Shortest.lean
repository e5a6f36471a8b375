import IndexMapping.Decimal.Binary64

/-! The shortest decimal that reads back to a binary number, and its layouts. -/

namespace IndexMapping.Decimal

/-- The decimal `digits * 10 ^ exponent`. -/
structure Scientific where
  digits : Nat
  exponent : Int
  deriving DecidableEq, Repr

/-- Where a value goes that lies halfway between two neighbours. -/
inductive Tie where
  | toEven
  | away
  deriving DecidableEq, Repr

/-- The quotient rounded to nearest. -/
def Tie.round (num den : Nat) : Tie → Nat
  | toEven => roundDiv num den
  | away => (2 * num + den) / (2 * den)

namespace Shortest

/-- An interval of quotients `n / den`, whose ends count when `closed` holds. -/
structure Interval where
  low : Nat
  value : Nat
  high : Nat
  den : Nat
  closed : Bool

/-- The numbers that round to `x`: up to half the distance to either neighbour, where the
neighbour below a power of two is nearer. -/
def interval (x : Binary64) : Interval :=
  let m := x.mantissa
  let below := if m = Nat.pow 2 52 && x.exponent != Binary64.minExponent then 1 else 2
  let e := x.exponent - 2
  let scale := Nat.pow 2 e.toNat
  ⟨(4 * m - below) * scale, 4 * m * scale, (4 * m + 2) * scale, Nat.pow 2 (-e).toNat, m % 2 == 0⟩

/-- Whether `d * 10 ^ k` lies in the interval. -/
def Interval.contains (i : Interval) (d : Nat) (k : Int) : Bool :=
  let p := d * Nat.pow 10 k.toNat * i.den
  let s := Nat.pow 10 (-k).toNat
  if i.closed then i.low * s ≤ p && p ≤ i.high * s else i.low * s < p && p < i.high * s

def digitCount (n : Nat) : Nat := (Nat.toDigits 10 n).length

/-- The exponent of ten of the leading digit of `num / den`. -/
def leadingExponent (num den : Nat) : Int :=
  if den ≤ num then (digitCount (num / den) : Int) - 1
  else -(digitCount ((den - 1) / num) : Int)

/-- The multiple of `10 ^ k` in the interval that is nearest to its value, if one is in it. -/
def onGrid (tie : Tie) (i : Interval) (k : Int) : Option Nat :=
  let num := i.value * Nat.pow 10 (-k).toNat
  let den := i.den * Nat.pow 10 k.toNat
  let d := num / den
  match i.contains d k, i.contains (d + 1) k with
  | true, true => some (tie.round num den)
  | true, false => some d
  | false, true => some (d + 1)
  | false, false => none

/-- The first grid from `k` on with a hit, each ten times finer than the one before. -/
def search (tie : Tie) (i : Interval) (k : Int) : Nat → Scientific
  | 0 => ⟨i.value / i.den, 0⟩
  | n + 1 => match onGrid tie i k with
    | some d => ⟨d, k⟩
    | none => search tie i (k - 1) n

/-- Seventeen digits always suffice. -/
def ofBinary (tie : Tie) (x : Binary64) : Scientific :=
  if x.isZero then ⟨0, 0⟩ else
    let i := interval x
    search tie i (leadingExponent i.value i.den) 17

end Shortest

/-- Decimal digits of a natural. -/
def digitsOf (n : Nat) : List Char := Nat.toDigits 10 n

def zeros (n : Nat) : List Char := List.replicate n '0'

/-- Digits without zeros at the end, each of which raises the exponent by one. -/
def trimZeros (digits : List Char) (exponent : Int) : List Char × Int :=
  let kept := (digits.reverse.dropWhile (· = '0')).reverse
  (kept, exponent + (digits.length - kept.length : Nat))

/-- How numbers are laid out. -/
structure Layout where
  /-- Least and greatest exponent of the leading digit written without an exponent. -/
  positional : Option (Int × Int)
  /-- Whether a whole number ends in a point and a zero. -/
  pointZero : Bool
  /-- Which of two shortest decimals that are equally near is taken. -/
  tie : Tie
  deriving Repr

namespace Layout

/-- A number without exponent. -/
def plain (l : Layout) (digits : List Char) (exponent : Int) : List Char :=
  let point := (digits.length : Int) + exponent
  if 0 ≤ exponent then
    digits ++ zeros exponent.toNat ++ (if l.pointZero then ['.', '0'] else [])
  else if 0 < point then
    digits.take point.toNat ++ '.' :: digits.drop point.toNat
  else '0' :: '.' :: zeros (-point).toNat ++ digits

/-- A number with one digit before the point and a signed exponent. -/
def withExponent (digits : List Char) (leading : Int) : List Char :=
  let fraction := digits.drop 1
  digits.take 1 ++ (if fraction.isEmpty then [] else '.' :: fraction) ++
    'e' :: (if leading < 0 then '-' else '+') :: digitsOf leading.natAbs

def magnitude (l : Layout) (s : Scientific) : List Char :=
  if s.digits = 0 then l.plain ['0'] 0 else
    let (digits, exponent) := trimZeros (digitsOf s.digits) s.exponent
    let leading := (digits.length : Int) + exponent - 1
    match l.positional with
    | none => l.plain digits exponent
    | some (lo, hi) =>
      if lo ≤ leading && leading ≤ hi then l.plain digits exponent
      else withExponent digits leading

def write (l : Layout) (x : Binary64) : List Char :=
  (if x.negative then ['-'] else []) ++ l.magnitude (Shortest.ofBinary l.tie x)

end Layout

end IndexMapping.Decimal
