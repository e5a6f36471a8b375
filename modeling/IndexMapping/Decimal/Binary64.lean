/-! Numbers of 64 bits: whole ones by their limits, and binary floating-point numbers as exact
values, where a finite number is `± mantissa * 2 ^ exponent`. Every operation computes the exact
quotient of two naturals and rounds it once, to nearest, a tie going to the even mantissa. -/

namespace IndexMapping.Decimal

/-! ### Whole numbers -/

/-- The greatest number of a word without a sign, `2 ^ 64 - 1`. -/
def maxUnsigned : Nat := 18446744073709551615

/-- The least number of a word with a sign, `-2 ^ 63`. -/
def minSigned : Int := -9223372036854775808

/-- The greatest number of a word with a sign, `2 ^ 63 - 1`. -/
def maxSigned : Int := 9223372036854775807

def fitsSigned (n : Int) : Bool := minSigned ≤ n && n ≤ maxSigned

/-! ### Floating-point numbers -/

structure Binary64 where
  negative : Bool
  mantissa : Nat
  exponent : Int
  deriving DecidableEq, Repr

/-- The quotient rounded to nearest, a tie to even. -/
def roundDiv (num den : Nat) : Nat :=
  let q := num / den
  let r := num % den
  if 2 * r < den then q
  else if den < 2 * r then q + 1
  else q + q % 2

namespace Binary64

/-- The least exponent, that of the numbers nearest zero. -/
def minExponent : Int := -1074

def zero : Binary64 := ⟨false, 0, minExponent⟩

def isZero (x : Binary64) : Bool := x.mantissa == 0

def neg (x : Binary64) : Binary64 := { x with negative := !x.negative }

/-- Numeric equality: both zeros are equal. -/
def eq (x y : Binary64) : Bool := (x.isZero && y.isZero) || x == y

/-- `num / den` scaled by `2 ^ (-e)` and rounded. -/
def scaledMantissa (num den : Nat) (e : Int) : Nat :=
  roundDiv (num * Nat.pow 2 (-e).toNat) (den * Nat.pow 2 e.toNat)

/-- The exponent at which the quotient has 53 binary digits, or the least one. -/
def quotientExponent (num den : Nat) : Int :=
  let a := num.log2
  let b := den.log2
  let short := num * Nat.pow 2 (b - a) < den * Nat.pow 2 (a - b)
  let e : Int := if short then (a : Int) - b - 53 else (a : Int) - b - 52
  max e minExponent

/-- The number nearest to `num / den`; `none` if it is too large. -/
def ofQuotient (num den : Nat) : Option Binary64 :=
  if num = 0 then some zero else
    let e := quotientExponent num den
    let m := scaledMantissa num den e
    let x : Binary64 := if m = Nat.pow 2 53 then ⟨false, Nat.pow 2 52, e + 1⟩ else ⟨false, m, e⟩
    if 971 < x.exponent then none else some x

/-- The number nearest to `± num * 10 ^ e`; `none` if it is too large. -/
def ofDecimal (negative : Bool) (num : Nat) (e : Int) : Option Binary64 :=
  (ofQuotient (num * Nat.pow 10 e.toNat) (Nat.pow 10 (-e).toNat)).map ({ · with negative })

/-- The rounded quotient `x / y`; `none` if it is too large. -/
def div (x y : Binary64) : Option Binary64 :=
  let e := x.exponent - y.exponent
  (ofQuotient (x.mantissa * Nat.pow 2 e.toNat) (y.mantissa * Nat.pow 2 (-e).toNat)).map
    ({ · with negative := x.negative != y.negative })

/-- The rounded product; `none` if it is too large. -/
def mul (x y : Binary64) : Option Binary64 :=
  let e := x.exponent + y.exponent
  (ofQuotient (x.mantissa * y.mantissa * Nat.pow 2 e.toNat) (Nat.pow 2 (-e).toNat)).map
    ({ · with negative := x.negative != y.negative })

end Binary64

/-- A floating-point number as configuration sources write them. -/
inductive Real64 where
  | finite (x : Binary64)
  | infinity (negative : Bool)
  | nan
  deriving DecidableEq, Repr

namespace Real64

def isZero : Real64 → Bool
  | finite x => x.isZero
  | _ => false

/-- The number nearest to `± num * 10 ^ e`; beyond the largest it is infinite. An exponent that
no digits can make up for is not raised to a power. -/
def ofDecimal (negative : Bool) (num : Nat) (e : Int) : Real64 :=
  let digits : Int := num.log2
  if num = 0 || e + digits < -400 then finite { Binary64.zero with negative }
  else if 400 < e then infinity negative
  else match Binary64.ofDecimal negative num e with
    | some x => finite x
    | none => infinity negative

end Real64

end IndexMapping.Decimal
