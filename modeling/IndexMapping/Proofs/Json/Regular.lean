import IndexMapping.Proofs.Decimal.Rounding
import IndexMapping.Proofs.Json.Names

/-! The numbers that the reader makes, whatever the text: its floats are numbers of the format, and
its whole numbers fit in a word. -/

namespace IndexMapping

open Decimal (Binary64)
open Decimal.Binary64 (regular_zero regular_getD_ofQuotient regular_mul regular_div)

/-- A float is a number of the format. -/
def Number.Regular : Number → Prop
  | integer _ => True
  | float x => x.Regular

namespace Json

/-- All floats in the value are numbers of the format. -/
inductive Regular : Json → Prop
  | null : Regular null
  | bool (b : Bool) : Regular (bool b)
  | number {n : Number} (h : n.Regular) : Regular (number n)
  | string (s : String) : Regular (string s)
  | array {xs : List Json} (items : ∀ x ∈ xs, Regular x) : Regular (array xs)
  | object {ms : List (String × Json)} (values : ∀ m ∈ ms, Regular m.2) : Regular (object ms)

variable {negative : Bool} {significand : Nat} {exponent : Int} {cs rest rest' : List Char}
  {n : Number} {x y : Binary64}

theorem Regular.of_item {xs : List Json} (h : Regular (.array xs)) : ∀ x ∈ xs, x.Regular := by
  cases h with
  | array items => exact items

theorem Regular.of_member {ms : List (String × Json)} (h : Regular (.object ms)) :
    ∀ m ∈ ms, m.2.Regular := by
  cases h with
  | object values => exact values

/-! ### The ways in which numbers are made -/

/-- A property of all numbers that come of digits with an exponent, of whole digits that fit, or of
an exponent that runs over. -/
structure Made (Q : Number → Prop) : Prop where
  assembled : ∀ {negative : Bool} {significand : Nat} {exponent : Int} {cs rest : List Char}
    {n : Number}, assemble negative significand exponent cs = .ok (n, rest) → Q n
  whole : ∀ (negative : Bool) {significand : Nat}, significand ≤ maxSignificand →
    Q (wholeNumber negative significand)
  zero : ∀ negative : Bool, Q (.float { Binary64.zero with negative })

variable {Q : Number → Prop}

theorem gather_le (h : significand ≤ maxSignificand) (taken : Nat) (cs : List Char) :
    (gather significand taken cs).1 ≤ maxSignificand := by
  fun_induction gather significand taken cs with
  | case1 => exact h
  | case2 => exact h
  | case3 s taken c cs hc s' hfits ih => exact ih (Nat.not_lt.1 hfits)
  | case4 => exact h

theorem digitValue_le {c : Char} (hc : isDigit c = true) : digitValue c ≤ maxSignificand := by
  simp only [isDigit, Bool.and_eq_true, decide_eq_true_eq] at hc
  have hnine : c.toNat ≤ '9'.toNat := hc.2
  simp only [digitValue, maxSignificand, Decimal.maxUnsigned] at hnine ⊢
  have : '9'.toNat = 57 := rfl
  omega

namespace Made

theorem of_readExponent (hQ : Made Q)
    (h : readExponent negative significand exponent cs = .ok (n, rest)) : Q n := by
  simp only [readExponent] at h
  split at h
  · cases h
  · split at h
    · split at h
      · split_ifs at h
        · cases h
        · cases h
          exact hQ.zero _
      · exact hQ.assembled h
    · cases h

theorem of_readFloatEnd (hQ : Made Q)
    (h : readFloatEnd negative significand exponent cs = .ok (n, rest)) : Q n := by
  unfold readFloatEnd at h
  split at h
  · exact hQ.assembled h
  · split at h
    · exact hQ.of_readExponent h
    · exact hQ.assembled h

theorem of_readFraction (hQ : Made Q)
    (h : readFraction negative significand exponent cs = .ok (n, rest)) : Q n := by
  simp only [readFraction] at h
  split at h
  · cases h
  · split at h
    · exact hQ.of_readFloatEnd h
    · cases h
  · exact hQ.of_readFloatEnd h

theorem of_readNumberEnd (hQ : Made Q) {dropped : Nat} (hfits : significand ≤ maxSignificand)
    (h : readNumberEnd negative significand dropped cs = .ok (n, rest)) : Q n := by
  unfold readNumberEnd at h
  split at h
  · split at h
    · cases h
      exact hQ.whole _ hfits
    · exact hQ.assembled h
  · split at h
    · exact hQ.of_readFraction h
    · split at h
      · exact hQ.of_readExponent h
      · split at h
        · cases h
          exact hQ.whole _ hfits
        · exact hQ.assembled h

theorem of_readNumber (hQ : Made Q) (h : readNumber negative cs = .ok (n, rest)) : Q n := by
  unfold readNumber at h
  split at h
  · cases h
  · split at h
    · split at h
      · split at h
        · cases h
        · exact hQ.of_readNumberEnd (Nat.zero_le _) h
      · exact hQ.of_readNumberEnd (Nat.zero_le _) h
    · split at h
      next hc => exact hQ.of_readNumberEnd (gather_le (digitValue_le hc) _ _) h
      next => cases h

end Made

/-! ### Floats -/

/-- Powers of ten in the range are not rounded to zero. -/
theorem tenTo_pos : ∀ k ≤ 308, 0 < (divideByTen.tenTo k).mantissa := by decide +kernel

theorem regular_divideByTen (h : x.Regular) (e : Nat) : (divideByTen x e).Regular := by
  have hquotient : ∀ {x : Binary64} {k : Nat}, x.Regular → k ≤ 308 →
      ((x.div (divideByTen.tenTo k)).getD x).Regular := by
    intro x k hx hk
    cases hq : x.div (divideByTen.tenTo k) with
    | none => exact hx
    | some y => exact regular_div (tenTo_pos k hk) hq
  fun_induction divideByTen x e with
  | case1 x e hle => exact hquotient h hle
  | case2 x e hlarge hzero => exact h
  | case3 x e hlarge hzero ih => exact ih (hquotient h le_rfl)

theorem regular_assemble (h : assemble negative significand exponent cs = .ok (n, rest)) :
    n.Regular := by
  have hx : ((Binary64.ofQuotient significand 1).getD .zero).Regular :=
    regular_getD_ofQuotient Nat.one_pos
  simp only [assemble] at h
  split at h
  · split at h
    · split at h
      · cases h
        exact hx.signed _
      · cases h
    · split at h
      next y hy =>
        cases h
        exact (regular_mul hy).signed _
      next => cases h
  · cases h
    exact (regular_divideByTen hx _).signed _

theorem regular_wholeNumber (negative : Bool) (significand : Nat) :
    (wholeNumber negative significand).Regular := by
  unfold wholeNumber
  split
  · trivial
  · split
    · exact (regular_getD_ofQuotient Nat.one_pos).signed _
    · trivial

theorem made_regular : Made Number.Regular where
  assembled := regular_assemble
  whole negative significand _ := regular_wholeNumber negative significand
  zero _ := regular_zero.signed _

theorem inherited_regular : Inherited fun _ => Regular where
  null _ := .null
  bool _ := .bool
  number h := .number (made_regular.of_readNumber h)
  string _ := .string
  array := .array
  object _ := .object

/-- The floats of a value that is read from a text are numbers of the format. -/
theorem regular_of_parse {text : String} {v : Json} (h : parse text = .ok v) : v.Regular :=
  of_readWhole (gives_readValue inherited_regular depthLimit) h

/-! ### Whole numbers -/

/-- All numbers in the value are whole numbers. -/
inductive Whole : Json → Prop
  | null : Whole null
  | bool (b : Bool) : Whole (bool b)
  | integer (n : Int) : Whole (number (.integer n))
  | string (s : String) : Whole (string s)
  | array {xs : List Json} (items : ∀ x ∈ xs, Whole x) : Whole (array xs)
  | object {ms : List (String × Json)} (values : ∀ m ∈ ms, Whole m.2) : Whole (object ms)

theorem made_inWord : Made fun n => ∀ k, n = .integer k →
    Decimal.minSigned ≤ k ∧ k ≤ Decimal.maxUnsigned where
  assembled h k hk := by
    subst hk
    simp only [assemble] at h
    split_ifs at h
    · cases h
    · cases h
    · split at h <;> cases h
    · cases h
  whole negative significand hfits k hk := by
    simp only [maxSignificand, Decimal.maxUnsigned, Decimal.minSigned] at hfits ⊢
    unfold wholeNumber at hk
    split_ifs at hk with hpositive hrange
    · cases hk
      omega
    · cases hk
      have hsigned : Decimal.fitsSigned (-significand) = true := by
        by_contra hnot
        exact hrange (by simp [hnot])
      simp only [Decimal.fitsSigned, Bool.and_eq_true, decide_eq_true_eq] at hsigned
      exact ⟨hsigned.1, by omega⟩
  zero negative k hk := by cases hk

theorem inherited_plain : Inherited fun _ v => v.Whole → v.Plain where
  null _ _ := .null
  bool _ b _ := .bool b
  number hn h := by
    cases h with
    | integer k =>
      obtain ⟨lower, upper⟩ := made_inWord.of_readNumber hn k rfl
      exact .integer lower upper
  string _ s _ := .string s
  array hxs h := by
    cases h with
    | array items => exact .array fun x hx => hxs x hx (items x hx)
  object hnames hms h := by
    cases h with
    | object values => exact .object hnames fun m hm => hms m hm (values m hm)

/-- A value without floats that is read from a text loses nothing in its texts. -/
theorem plain_of_parse {text : String} {v : Json} (h : parse text = .ok v) (hv : v.Whole) :
    v.Plain :=
  of_readWhole (gives_readValue inherited_plain depthLimit) h hv

end Json

end IndexMapping
