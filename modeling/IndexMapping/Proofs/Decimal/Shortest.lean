import Mathlib.Algebra.Order.Field.Power
import Mathlib.Data.Nat.Cast.Order.Field
import Mathlib.Data.Nat.Digits.Defs
import Mathlib.Data.Rat.Cast.Order
import Mathlib.Tactic.FieldSimp
import Mathlib.Tactic.Linarith
import Mathlib.Tactic.Positivity
import Mathlib.Tactic.Ring
import Mathlib.Tactic.SplitIfs
import IndexMapping.Decimal.Shortest

/-! The shortest decimals. The numbers that round to a binary number make up an interval, and no two
of these intervals meet. A grid of seventeen digits is fine enough for each of them, so the search
ends in the interval. -/

namespace IndexMapping.Decimal

/-- A number of the format: the mantissa has 53 binary digits, or fewer at the least exponent. -/
structure Binary64.Regular (x : Binary64) : Prop where
  fits : x.mantissa < 2 ^ 53
  least : minExponent ≤ x.exponent
  full : 2 ^ 52 ≤ x.mantissa ∨ x.exponent = minExponent

def Scientific.value (s : Scientific) : ℚ := s.digits * 10 ^ s.exponent

/-- A power with an exponent of either sign as a quotient of powers, of which one is trivial. -/
theorem pow_div_pow_toNat (b : ℕ) (k : ℤ) :
    (b : ℚ) ^ k.toNat / (b : ℚ) ^ (-k).toNat = (b : ℚ) ^ k := by
  cases k with
  | ofNat n => simp
  | negSucc n => simp [zpow_negSucc]

theorem scaled_eq (b n : ℕ) (k : ℤ) :
    ((n * b ^ k.toNat : ℕ) : ℚ) / (b ^ (-k).toNat : ℕ) = n * (b : ℚ) ^ k := by
  rw [← pow_div_pow_toNat b k, ← mul_div_assoc]
  push_cast
  rfl

/-- Scaling before the division is scaling of the quotient. -/
theorem scaled_quotient (b num den : ℕ) (k : ℤ) :
    ((num * b ^ (-k).toNat : ℕ) : ℚ) / (den * b ^ k.toNat : ℕ) = num / den / (b : ℚ) ^ k := by
  have hsplit := pow_div_pow_toNat b (-k)
  rw [neg_neg] at hsplit
  push_cast
  rw [mul_div_mul_comm, hsplit, zpow_neg, div_eq_mul_inv _ ((b : ℚ) ^ k)]

namespace Shortest

/-! ### Intervals -/

namespace Interval

variable {i : Interval} {q : ℚ}

def lowest (i : Interval) : ℚ := i.low / i.den

def middle (i : Interval) : ℚ := i.value / i.den

def highest (i : Interval) : ℚ := i.high / i.den

/-- A number lies in the interval. -/
def Holds (i : Interval) (q : ℚ) : Prop :=
  if i.closed then i.lowest ≤ q ∧ q ≤ i.highest else i.lowest < q ∧ q < i.highest

theorem Holds.bounds (h : i.Holds q) : i.lowest ≤ q ∧ q ≤ i.highest := by
  unfold Holds at h
  split_ifs at h
  · exact h
  · exact ⟨h.1.le, h.2.le⟩

theorem le_lowest_of_not_holds (h : ¬ i.Holds q) (hq : q < i.highest) : q ≤ i.lowest := by
  unfold Holds at h
  by_contra hlow
  rw [not_le] at hlow
  split_ifs at h
  · exact h ⟨hlow.le, hq.le⟩
  · exact h ⟨hlow, hq⟩

theorem highest_le_of_not_holds (h : ¬ i.Holds q) (hq : i.lowest < q) : i.highest ≤ q := by
  unfold Holds at h
  by_contra hhigh
  rw [not_le] at hhigh
  split_ifs at h
  · exact h ⟨hq.le, hhigh.le⟩
  · exact h ⟨hq, hhigh⟩

theorem contains_iff (hden : 0 < i.den) (d : ℕ) (k : ℤ) :
    i.contains d k = true ↔ i.Holds (d * 10 ^ k) := by
  have hden' : (0 : ℚ) < i.den := by exact_mod_cast hden
  have hpow : (0 : ℚ) < 10 ^ (-k).toNat := by positivity
  have hq : (d : ℚ) * 10 ^ k = (d * 10 ^ k.toNat : ℕ) / (10 ^ (-k).toNat : ℕ) :=
    (scaled_eq 10 d k).symm
  have hpow' : (0 : ℚ) < (10 ^ (-k).toNat : ℕ) := by exact_mod_cast hpow
  unfold contains Holds lowest highest
  rw [hq]
  simp only [div_le_div_iff₀ hden' hpow', div_le_div_iff₀ hpow' hden', div_lt_div_iff₀ hden' hpow',
    div_lt_div_iff₀ hpow' hden', Nat.pow_eq]
  split_ifs
  · rw [Bool.and_eq_true, decide_eq_true_eq, decide_eq_true_eq]
    norm_cast
  · rw [Bool.and_eq_true, decide_eq_true_eq, decide_eq_true_eq]
    norm_cast

end Interval

/-! ### The intervals of binary numbers -/

section interval

variable {x y : Binary64} {q : ℚ}

/-- A quarter of the last place. -/
def quarter (x : Binary64) : ℚ := 2 ^ (x.exponent - 2)

theorem quarter_pos (x : Binary64) : 0 < quarter x := by
  unfold quarter
  positivity

/-- How many quarters the interval extends below the number. -/
def below (x : Binary64) : ℕ :=
  if x.mantissa = 2 ^ 52 && x.exponent != Binary64.minExponent then 1 else 2

theorem den_interval_pos (x : Binary64) : 0 < (interval x).den := Nat.pow_pos (by decide)

theorem lowest_interval (x : Binary64) :
    (interval x).lowest = (4 * x.mantissa - below x : ℕ) * quarter x :=
  scaled_eq 2 _ _

theorem middle_interval (x : Binary64) :
    (interval x).middle = (4 * x.mantissa : ℕ) * quarter x :=
  scaled_eq 2 _ _

theorem highest_interval (x : Binary64) :
    (interval x).highest = (4 * x.mantissa + 2 : ℕ) * quarter x :=
  scaled_eq 2 _ _

/-- Only intervals around even numbers hold their ends. -/
theorem even_of_holds_end (h : (interval x).Holds q)
    (hend : q = (interval x).lowest ∨ q = (interval x).highest) : x.mantissa % 2 = 0 := by
  by_contra hodd
  have hopen : (interval x).closed = false := by
    simp only [interval, beq_eq_false_iff_ne]
    exact hodd
  simp only [Interval.Holds, hopen, Bool.false_eq_true, if_false] at h
  rcases hend with heq | heq
  · exact absurd h.1 (by rw [heq]; exact lt_irrefl _)
  · exact absurd h.2 (by rw [heq]; exact lt_irrefl _)

theorem below_le (x : Binary64) : below x ≤ 2 := by
  unfold below
  split_ifs <;> decide

/-- The interval of one number ends before that of another begins, or where it begins if one of
the two numbers is odd. -/
def Precedes (x y : Binary64) : Prop :=
  (interval x).highest ≤ (interval y).lowest ∧
    (x.mantissa % 2 = 0 → y.mantissa % 2 = 0 → (interval x).highest < (interval y).lowest)

theorem precedes_of_mantissa_lt (he : x.exponent = y.exponent) (h : x.mantissa < y.mantissa) :
    Precedes x y := by
  have hquarter := quarter_pos x
  have hsame : quarter y = quarter x := by rw [quarter, quarter, he]
  have hbelow := below_le y
  rw [Precedes, highest_interval, lowest_interval, hsame]
  constructor
  · refine mul_le_mul_of_nonneg_right ?_ hquarter.le
    exact_mod_cast (by omega : 4 * x.mantissa + 2 ≤ 4 * y.mantissa - below y)
  · intro hxeven hyeven
    refine mul_lt_mul_of_pos_right ?_ hquarter
    exact_mod_cast (by omega : 4 * x.mantissa + 2 < 4 * y.mantissa - below y)

/-- In quarters of the smaller place, a number with all its digits begins behind every number with
fewer places. -/
theorem quarters_lt_of_full (hx : x.Regular) (hfull : 2 ^ 52 ≤ y.mantissa)
    (hnormal : y.exponent ≠ Binary64.minExponent) :
    4 * x.mantissa + 2 ≤ 2 * (4 * y.mantissa - below y) ∧
      (x.mantissa % 2 = 0 → 4 * x.mantissa + 2 < 2 * (4 * y.mantissa - below y)) := by
  have hfits := hx.fits
  unfold below
  split_ifs with hhalf
  · simp only [Bool.and_eq_true, decide_eq_true_eq] at hhalf
    omega
  · have hne : y.mantissa ≠ 2 ^ 52 := fun h => hhalf (by simp [h, hnormal])
    omega

theorem precedes_of_exponent_lt (hx : x.Regular) (hy : y.Regular) (h : x.exponent < y.exponent) :
    Precedes x y := by
  have hquarter := quarter_pos x
  have hnormal : y.exponent ≠ Binary64.minExponent := by
    have hleast := hx.least
    omega
  obtain ⟨hle, hlt⟩ := quarters_lt_of_full hx (hy.full.resolve_right hnormal) hnormal
  have hdouble : 2 * quarter x ≤ quarter y := by
    have hpow : (2 : ℚ) ^ (x.exponent - 2 + 1) ≤ 2 ^ (y.exponent - 2) :=
      zpow_le_zpow_right₀ (by norm_num) (by omega)
    rw [zpow_add_one₀ (by norm_num)] at hpow
    unfold quarter
    linarith
  have hscale : (2 * (4 * y.mantissa - below y) : ℕ) * quarter x ≤
      (4 * y.mantissa - below y : ℕ) * quarter y := by
    have hmul := mul_le_mul_of_nonneg_left hdouble
      (Nat.cast_nonneg (α := ℚ) (4 * y.mantissa - below y))
    rw [Nat.cast_mul]
    push_cast at hmul ⊢
    linarith
  rw [Precedes, highest_interval, lowest_interval]
  constructor
  · refine le_trans ?_ hscale
    exact mul_le_mul_of_nonneg_right (by exact_mod_cast hle) hquarter.le
  · intro hxeven _
    refine lt_of_lt_of_le ?_ hscale
    exact mul_lt_mul_of_pos_right (by exact_mod_cast hlt hxeven) hquarter

theorem precedes_of_lt (hx : x.Regular) (hy : y.Regular)
    (h : x.exponent < y.exponent ∨ x.exponent = y.exponent ∧ x.mantissa < y.mantissa) :
    Precedes x y := by
  rcases h with hlt | ⟨heq, hlt⟩
  · exact precedes_of_exponent_lt hx hy hlt
  · exact precedes_of_mantissa_lt heq hlt

theorem not_holds_of_lt (hx : x.Regular) (hy : y.Regular)
    (h : x.exponent < y.exponent ∨ x.exponent = y.exponent ∧ x.mantissa < y.mantissa)
    (hqx : (interval x).Holds q) : ¬ (interval y).Holds q := by
  intro hqy
  obtain ⟨hle, hlt⟩ := precedes_of_lt hx hy h
  have hhigh : q = (interval x).highest :=
    le_antisymm hqx.bounds.2 (hle.trans hqy.bounds.1)
  have hlow : q = (interval y).lowest :=
    le_antisymm (hqx.bounds.2.trans hle) hqy.bounds.1
  have hmeet := hlt (even_of_holds_end hqx (.inr hhigh)) (even_of_holds_end hqy (.inl hlow))
  rw [← hhigh, ← hlow] at hmeet
  exact lt_irrefl q hmeet

/-- No two intervals meet. -/
theorem eq_of_holds (hx : x.Regular) (hy : y.Regular) (hqx : (interval x).Holds q)
    (hqy : (interval y).Holds q) : x.mantissa = y.mantissa ∧ x.exponent = y.exponent := by
  by_contra hne
  have hlt : (x.exponent < y.exponent ∨ x.exponent = y.exponent ∧ x.mantissa < y.mantissa) ∨
      (y.exponent < x.exponent ∨ y.exponent = x.exponent ∧ y.mantissa < x.mantissa) := by
    omega
  rcases hlt with hlt | hlt
  · exact not_holds_of_lt hx hy hlt hqx hqy
  · exact not_holds_of_lt hy hx hlt hqy hqx

end interval

/-! ### The search -/

section search

variable {tie : Tie} {i : Interval} {d : ℕ} {k : ℤ} {x : Binary64}

theorem roundDiv_mem (num : ℕ) {den : ℕ} (hden : 0 < den) (tie : Tie) :
    tie.round num den = num / den ∨ tie.round num den = num / den + 1 := by
  have hlt := Nat.mod_lt num hden
  cases tie with
  | toEven =>
    simp only [Tie.round, roundDiv]
    split_ifs <;> omega
  | away =>
    have hnum := Nat.div_add_mod num den
    simp only [Tie.round]
    generalize num / den = q, num % den = r at hnum hlt ⊢
    have hle : q ≤ (2 * num + den) / (2 * den) := by
      rw [Nat.le_div_iff_mul_le (by omega)]
      linarith
    have hge : (2 * num + den) / (2 * den) < q + 2 := by
      rw [Nat.div_lt_iff_lt_mul (by omega)]
      linarith
    omega

theorem contains_of_onGrid (hden : 0 < i.den) (h : onGrid tie i k = some d) :
    i.contains d k = true := by
  have hden' : 0 < i.den * 10 ^ k.toNat := Nat.mul_pos hden (Nat.pow_pos (by decide))
  simp only [onGrid, Nat.pow_eq] at h
  split at h
  · cases h
    rcases roundDiv_mem (i.value * 10 ^ (-k).toNat) hden' tie with heq | heq
    · rwa [heq]
    · rwa [heq]
  · cases h
    assumption
  · cases h
    assumption
  · cases h

/-- The multiple of a step that is next to the number from below. -/
def next (i : Interval) (k : ℤ) : ℕ := i.value * 10 ^ (-k).toNat / (i.den * 10 ^ k.toNat)

theorem next_le (hden : 0 < i.den) (k : ℤ) :
    next i k * (10 : ℚ) ^ k ≤ i.middle ∧ i.middle < (next i k + 1 : ℕ) * 10 ^ k := by
  have hstep : (0 : ℚ) < 10 ^ k := by positivity
  have hden' : 0 < i.den * 10 ^ k.toNat := Nat.mul_pos hden (Nat.pow_pos (by decide))
  have hmiddle : ((i.value * 10 ^ (-k).toNat : ℕ) : ℚ) / (i.den * 10 ^ k.toNat : ℕ) =
      i.middle / 10 ^ k := scaled_quotient 10 i.value i.den k
  constructor
  · rw [← le_div_iff₀ hstep, ← hmiddle]
    exact Nat.cast_div_le
  · rw [← div_lt_iff₀ hstep, ← hmiddle, div_lt_iff₀ (by exact_mod_cast hden')]
    exact_mod_cast Nat.lt_mul_of_div_lt (Nat.lt_succ_self _) hden'

/-- If a grid has no hit, the multiples next to the number are not in its interval. -/
theorem not_holds_next (hden : 0 < i.den) (h : onGrid tie i k = none) :
    ¬ i.Holds (next i k * 10 ^ k) ∧ ¬ i.Holds ((next i k + 1 : ℕ) * 10 ^ k) := by
  simp only [onGrid, Nat.pow_eq] at h
  constructor
  · intro hholds
    have hcontains : i.contains (next i k) k := (Interval.contains_iff hden _ k).2 hholds
    rw [next] at hcontains
    rw [hcontains] at h
    split at h <;> simp_all
  · intro hholds
    have hcontains : i.contains (next i k + 1) k := (Interval.contains_iff hden _ k).2 hholds
    rw [next] at hcontains
    rw [hcontains] at h
    split at h <;> simp_all

theorem lowest_le_middle (x : Binary64) : (interval x).lowest ≤ (interval x).middle := by
  rw [lowest_interval, middle_interval]
  refine mul_le_mul_of_nonneg_right ?_ (quarter_pos x).le
  exact_mod_cast Nat.sub_le _ _

theorem middle_lt_highest (x : Binary64) : (interval x).middle < (interval x).highest := by
  rw [highest_interval, middle_interval]
  refine mul_lt_mul_of_pos_right ?_ (quarter_pos x)
  exact_mod_cast Nat.lt_add_of_pos_right two_pos

/-- An interval is wider than the last of 17 digits of its number. -/
theorem wide (hx : x.Regular) (hpos : 0 < x.mantissa) :
    (interval x).lowest * 10 ^ 16 + (interval x).middle < (interval x).highest * 10 ^ 16 := by
  have hfits := hx.fits
  have hcount : (4 * x.mantissa - below x) * 10 ^ 16 + 4 * x.mantissa <
      (4 * x.mantissa + 2) * 10 ^ 16 := by
    unfold below
    split_ifs with hhalf
    · simp only [Bool.and_eq_true, decide_eq_true_eq] at hhalf
      omega
    · omega
  have hquarters : ((4 * x.mantissa - below x) * 10 ^ 16 + 4 * x.mantissa : ℕ) * quarter x <
      ((4 * x.mantissa + 2) * 10 ^ 16 : ℕ) * quarter x :=
    mul_lt_mul_of_pos_right (by exact_mod_cast hcount) (quarter_pos x)
  rw [highest_interval, lowest_interval, middle_interval]
  rw [Nat.cast_add, Nat.cast_mul, Nat.cast_mul] at hquarters
  push_cast at hquarters ⊢
  linarith

/-- A grid has a hit if its steps are small against the number. -/
theorem onGrid_ne_none (hx : x.Regular) (hpos : 0 < x.mantissa)
    (hk : (10 : ℚ) ^ k * 10 ^ 16 ≤ (interval x).middle) : onGrid tie (interval x) k ≠ none := by
  intro hnone
  have hden := den_interval_pos x
  obtain ⟨hfloor, hceil⟩ := next_le hden k
  obtain ⟨hlow, hhigh⟩ := not_holds_next hden hnone
  -- the interval lies between two multiples, so that it is no wider than a step
  have hfirst := Interval.le_lowest_of_not_holds hlow (hfloor.trans_lt (middle_lt_highest x))
  have hlast := Interval.highest_le_of_not_holds hhigh ((lowest_le_middle x).trans_lt hceil)
  have hwide := wide hx hpos
  push_cast at hlast
  linarith

theorem holds_search (hden : 0 < i.den) {n : ℕ} (h : onGrid tie i (k - n) ≠ none) :
    i.Holds (search tie i k (n + 1)).value := by
  induction n generalizing k with
  | zero =>
    obtain ⟨d, hd⟩ := Option.ne_none_iff_exists'.1 h
    rw [Nat.cast_zero, sub_zero] at hd
    rw [search, hd]
    exact (Interval.contains_iff hden d k).1 (contains_of_onGrid hden hd)
  | succ n ih =>
    rw [search]
    cases hk : onGrid tie i k with
    | some d => exact (Interval.contains_iff hden d k).1 (contains_of_onGrid hden hk)
    | none =>
      refine ih ?_
      rwa [Nat.cast_succ, ← sub_sub, sub_right_comm] at h

theorem pow_digitCount_le {n : ℕ} (hn : 0 < n) : 10 ^ (digitCount n - 1) ≤ n := by
  unfold digitCount
  by_contra hlt
  rw [not_le] at hlt
  have hlen : 0 < (Nat.toDigits 10 n).length := Nat.length_toDigits_pos
  rcases Nat.eq_zero_or_pos ((Nat.toDigits 10 n).length - 1) with hone | hmore
  · rw [hone, pow_zero] at hlt
    omega
  · have hle := (Nat.length_toDigits_le_iff (by decide) hmore).2 hlt
    omega

theorem lt_pow_digitCount (n : ℕ) : n < 10 ^ digitCount n :=
  (Nat.length_toDigits_le_iff (by decide) Nat.length_toDigits_pos).1 le_rfl

theorem pow_leadingExponent_le {num den : ℕ} (hnum : 0 < num) (hden : 0 < den) :
    (10 : ℚ) ^ leadingExponent num den ≤ num / den := by
  have hden' : (0 : ℚ) < den := by exact_mod_cast hden
  rw [le_div_iff₀ hden']
  unfold leadingExponent
  split_ifs with hle
  · have hpos : 0 < num / den := Nat.div_pos hle hden
    have hcount := pow_digitCount_le hpos
    have hlen : 0 < digitCount (num / den) := Nat.length_toDigits_pos
    have hexp : ((digitCount (num / den) : ℤ) - 1) = (digitCount (num / den) - 1 : ℕ) := by omega
    rw [hexp, zpow_natCast]
    exact_mod_cast (Nat.mul_le_mul_right den hcount).trans (Nat.div_mul_le_self num den)
  · have hlt := lt_pow_digitCount ((den - 1) / num)
    rw [Nat.div_lt_iff_lt_mul hnum] at hlt
    rw [zpow_neg, zpow_natCast, inv_mul_le_iff₀ (by positivity)]
    exact_mod_cast (by omega : den ≤ 10 ^ digitCount ((den - 1) / num) * num)

/-- The shortest decimal of a number lies in the interval of the number. -/
theorem holds_ofBinary (hx : x.Regular) (hpos : 0 < x.mantissa) (tie : Tie) :
    (interval x).Holds (ofBinary tie x).value := by
  have hzero : x.isZero = false := by
    simp only [Binary64.isZero, beq_eq_false_iff_ne]
    omega
  simp only [ofBinary, hzero, Bool.false_eq_true, if_false]
  refine holds_search (den_interval_pos x) (n := 16) (onGrid_ne_none hx hpos ?_)
  have hvalue : 0 < (interval x).value :=
    Nat.mul_pos (Nat.mul_pos (by decide) hpos) (Nat.pow_pos (by decide))
  have hleading := pow_leadingExponent_le hvalue (den_interval_pos x)
  rw [zpow_sub₀ (by norm_num)]
  refine le_trans (le_of_eq ?_) hleading
  norm_num

theorem value_ofBinary_pos (hx : x.Regular) (hpos : 0 < x.mantissa) (tie : Tie) :
    0 < (ofBinary tie x).value := by
  refine lt_of_lt_of_le ?_ (holds_ofBinary hx hpos tie).bounds.1
  have hbelow := below_le x
  rw [lowest_interval]
  exact mul_pos (by exact_mod_cast (by omega : 0 < 4 * x.mantissa - below x)) (quarter_pos x)

theorem value_ofBinary_zero (hzero : x.mantissa = 0) (tie : Tie) : (ofBinary tie x).value = 0 := by
  simp [ofBinary, Binary64.isZero, hzero, Scientific.value]

/-- Numbers with one shortest decimal are the same up to the sign. -/
theorem eq_of_value_ofBinary {y : Binary64} (hx : x.Regular) (hy : y.Regular)
    (h : (ofBinary tie x).value = (ofBinary tie y).value) :
    x.mantissa = y.mantissa ∧ x.exponent = y.exponent := by
  rcases Nat.eq_zero_or_pos x.mantissa with hxzero | hxpos
  · rcases Nat.eq_zero_or_pos y.mantissa with hyzero | hypos
    · -- zeros have the least exponent
      have hxleast : x.exponent = Binary64.minExponent := hx.full.resolve_left (by omega)
      have hyleast : y.exponent = Binary64.minExponent := hy.full.resolve_left (by omega)
      exact ⟨hxzero.trans hyzero.symm, hxleast.trans hyleast.symm⟩
    · have hvalue := value_ofBinary_pos hy hypos tie
      rw [← h, value_ofBinary_zero hxzero] at hvalue
      exact absurd hvalue (lt_irrefl _)
  · rcases Nat.eq_zero_or_pos y.mantissa with hyzero | hypos
    · have hvalue := value_ofBinary_pos hx hxpos tie
      rw [h, value_ofBinary_zero hyzero] at hvalue
      exact absurd hvalue (lt_irrefl _)
    · have hholds := holds_ofBinary hx hxpos tie
      rw [h] at hholds
      exact eq_of_holds hx hy hholds (holds_ofBinary hy hypos tie)

end search

end Shortest

end IndexMapping.Decimal
