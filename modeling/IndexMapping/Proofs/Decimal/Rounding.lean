import IndexMapping.Proofs.Decimal.Shortest

/-! Rounding gives numbers of the format. The exponent of a quotient is chosen so that its mantissa
has 53 binary digits, unless the least exponent is reached before. -/

namespace IndexMapping.Decimal

namespace Binary64

variable {x y z : Binary64} {num den : ℕ} {e : ℤ}

theorem Regular.signed (h : x.Regular) (negative : Bool) : { x with negative }.Regular :=
  ⟨h.fits, h.least, h.full⟩

theorem regular_zero : zero.Regular := ⟨by decide, le_rfl, .inr rfl⟩

theorem two_pow_log2_le {n : ℕ} (hn : 0 < n) : (2 : ℚ) ^ (n.log2 : ℤ) ≤ n := by
  rw [zpow_natCast]
  exact_mod_cast Nat.log2_self_le hn.ne'

theorem lt_two_pow_log2 (n : ℕ) : (n : ℚ) < 2 ^ (n.log2 + 1 : ℤ) := by
  have hlt : n < 2 ^ (n.log2 + 1) := Nat.lt_log2_self
  exact_mod_cast hlt

/-- A quotient has as many binary digits as the difference of those of its parts, or one less. -/
theorem quotient_bounds (hnum : 0 < num) (hden : 0 < den) :
    (2 : ℚ) ^ ((num.log2 : ℤ) - den.log2 - 1) ≤ num / den ∧
      (num : ℚ) / den < 2 ^ ((num.log2 : ℤ) - den.log2 + 1) := by
  have hden' : (0 : ℚ) < den := by exact_mod_cast hden
  rw [le_div_iff₀ hden', div_lt_iff₀ hden']
  constructor
  · calc (2 : ℚ) ^ ((num.log2 : ℤ) - den.log2 - 1) * den
        ≤ 2 ^ ((num.log2 : ℤ) - den.log2 - 1) * 2 ^ (den.log2 + 1 : ℤ) :=
          mul_le_mul_of_nonneg_left (lt_two_pow_log2 den).le (by positivity)
      _ = 2 ^ (num.log2 : ℤ) := by
          rw [← zpow_add₀ (by norm_num)]
          congr 1
          omega
      _ ≤ num := two_pow_log2_le hnum
  · calc (num : ℚ) < 2 ^ (num.log2 + 1 : ℤ) := lt_two_pow_log2 num
      _ = 2 ^ ((num.log2 : ℤ) - den.log2 + 1) * 2 ^ (den.log2 : ℤ) := by
          rw [← zpow_add₀ (by norm_num)]
          congr 1
          omega
      _ ≤ 2 ^ ((num.log2 : ℤ) - den.log2 + 1) * den :=
          mul_le_mul_of_nonneg_left (two_pow_log2_le hden) (by positivity)

/-- Which of the two it is. -/
theorem quotient_short_iff (hden : 0 < den) :
    num * Nat.pow 2 (den.log2 - num.log2) < den * Nat.pow 2 (num.log2 - den.log2) ↔
      (num : ℚ) / den < 2 ^ ((num.log2 : ℤ) - den.log2) := by
  have hden' : (0 : ℚ) < den := by exact_mod_cast hden
  have hsplit := pow_div_pow_toNat 2 ((num.log2 : ℤ) - den.log2)
  have hup : ((num.log2 : ℤ) - den.log2).toNat = num.log2 - den.log2 := by omega
  have hdown : (-((num.log2 : ℤ) - den.log2)).toNat = den.log2 - num.log2 := by omega
  rw [hup, hdown, Nat.cast_ofNat] at hsplit
  rw [← hsplit, div_lt_div_iff₀ hden' (by positivity), mul_comm _ (den : ℚ), Nat.pow_eq, Nat.pow_eq]
  norm_cast

/-- The quotient has 53 binary digits at the exponent before the least one comes in. -/
theorem quotientExponent_cases (hnum : 0 < num) (hden : 0 < den) :
    ∃ e : ℤ, quotientExponent num den = max e minExponent ∧
      2 ^ (e + 52) ≤ (num : ℚ) / den ∧ (num : ℚ) / den < 2 ^ (e + 53) := by
  obtain ⟨hlow, hhigh⟩ := quotient_bounds hnum hden
  by_cases hshort : num * Nat.pow 2 (den.log2 - num.log2) < den * Nat.pow 2 (num.log2 - den.log2)
  · have hlt := (quotient_short_iff hden).1 hshort
    refine ⟨num.log2 - den.log2 - 53, by simp only [quotientExponent, hshort, if_true], ?_, ?_⟩
    · rwa [show (num.log2 : ℤ) - den.log2 - 53 + 52 = num.log2 - den.log2 - 1 by omega]
    · rwa [sub_add_cancel]
  · have hge := not_lt.1 fun h => hshort ((quotient_short_iff hden).2 h)
    refine ⟨num.log2 - den.log2 - 52, by simp only [quotientExponent, hshort, if_false], ?_, ?_⟩
    · rwa [sub_add_cancel]
    · rwa [show (num.log2 : ℤ) - den.log2 - 52 + 53 = num.log2 - den.log2 + 1 by omega]

/-- The rounded mantissa lies between whole bounds of the scaled quotient. -/
theorem scaledMantissa_bounds {low high : ℕ} (hden : 0 < den)
    (hlow : (low : ℚ) ≤ num / den / 2 ^ e) (hhigh : (num : ℚ) / den / 2 ^ e < high) :
    low ≤ scaledMantissa num den e ∧ scaledMantissa num den e ≤ high := by
  have hden' : 0 < den * 2 ^ e.toNat := Nat.mul_pos hden (Nat.pow_pos (by decide))
  have hden'' : (0 : ℚ) < (den * 2 ^ e.toNat : ℕ) := by exact_mod_cast hden'
  have hscaled : ((num * 2 ^ (-e).toNat : ℕ) : ℚ) / (den * 2 ^ e.toNat : ℕ) = num / den / 2 ^ e :=
    scaled_quotient 2 num den e
  rw [← hscaled] at hlow hhigh
  rw [le_div_iff₀ hden''] at hlow
  rw [div_lt_iff₀ hden''] at hhigh
  have hfloor : low ≤ num * 2 ^ (-e).toNat / (den * 2 ^ e.toNat) :=
    (Nat.le_div_iff_mul_le hden').2 (by exact_mod_cast hlow)
  have hceil : num * 2 ^ (-e).toNat / (den * 2 ^ e.toNat) < high :=
    (Nat.div_lt_iff_lt_mul hden').2 (by exact_mod_cast hhigh)
  have hround : scaledMantissa num den e = num * 2 ^ (-e).toNat / (den * 2 ^ e.toNat) ∨
      scaledMantissa num den e = num * 2 ^ (-e).toNat / (den * 2 ^ e.toNat) + 1 :=
    Shortest.roundDiv_mem _ hden' .toEven
  omega

/-- The mantissa at the exponent of a quotient has 53 digits, or one more after a carry. -/
theorem scaledMantissa_quotientExponent (hnum : 0 < num) (hden : 0 < den) :
    scaledMantissa num den (quotientExponent num den) ≤ 2 ^ 53 ∧
      (2 ^ 52 ≤ scaledMantissa num den (quotientExponent num den) ∨
        quotientExponent num den = minExponent) := by
  obtain ⟨e, he, hlow, hhigh⟩ := quotientExponent_cases hnum hden
  have hleast : e ≤ quotientExponent num den := he ▸ le_max_left _ _
  have hpow : (0 : ℚ) < 2 ^ quotientExponent num den := by positivity
  have hfits : (num : ℚ) / den / 2 ^ quotientExponent num den < (2 ^ 53 : ℕ) := by
    rw [div_lt_iff₀ hpow]
    calc (num : ℚ) / den < 2 ^ (e + 53) := hhigh
      _ ≤ 2 ^ (quotientExponent num den + 53) := zpow_le_zpow_right₀ (by norm_num) (by omega)
      _ = (2 ^ 53 : ℕ) * 2 ^ quotientExponent num den := by
          rw [zpow_add₀ (by norm_num), mul_comm]
          norm_num
  have hnonneg : ((0 : ℕ) : ℚ) ≤ num / den / 2 ^ quotientExponent num den := by positivity
  refine ⟨(scaledMantissa_bounds hden hnonneg hfits).2, ?_⟩
  rcases le_total e minExponent with hmin | hmin
  · exact .inr (he.trans (max_eq_right hmin))
  · refine .inl (scaledMantissa_bounds hden ?_ hfits).1
    rw [le_div_iff₀ hpow, he, max_eq_left hmin]
    calc ((2 ^ 52 : ℕ) : ℚ) * 2 ^ e = 2 ^ (e + 52) := by
          rw [zpow_add₀ (by norm_num), mul_comm]
          norm_num
      _ ≤ num / den := hlow

theorem regular_ofQuotient (hden : 0 < den) (h : ofQuotient num den = some x) : x.Regular := by
  have hleast : minExponent ≤ quotientExponent num den := le_max_right _ _
  by_cases hzero : num = 0
  · simp only [ofQuotient, hzero, if_true] at h
    cases h
    exact regular_zero
  · obtain ⟨hfits, hfull⟩ := scaledMantissa_quotientExponent (Nat.pos_of_ne_zero hzero) hden
    simp only [ofQuotient, hzero, if_false] at h
    generalize scaledMantissa num den (quotientExponent num den) = m at h hfits hfull
    generalize quotientExponent num den = e at h hleast hfull
    by_cases hcarry : m = 2 ^ 53
    · simp only [Nat.pow_eq, hcarry, if_true, Option.ite_none_left_eq_some] at h
      cases h.2
      exact ⟨Nat.pow_lt_pow_right (by decide) (by decide), hleast.trans (by simp), .inl le_rfl⟩
    · simp only [Nat.pow_eq, hcarry, if_false, Option.ite_none_left_eq_some] at h
      cases h.2
      exact ⟨lt_of_le_of_ne hfits hcarry, hleast, hfull⟩

theorem regular_getD_ofQuotient (hden : 0 < den) : ((ofQuotient num den).getD zero).Regular := by
  cases h : ofQuotient num den with
  | none => exact regular_zero
  | some x => exact regular_ofQuotient hden h

theorem regular_mul (h : x.mul y = some z) : z.Regular := by
  obtain ⟨z, hz, rfl⟩ := Option.map_eq_some_iff.1 h
  exact (regular_ofQuotient (Nat.pow_pos (by decide)) hz).signed _

theorem regular_div (hy : 0 < y.mantissa) (h : x.div y = some z) : z.Regular := by
  obtain ⟨z, hz, rfl⟩ := Option.map_eq_some_iff.1 h
  exact (regular_ofQuotient (Nat.mul_pos hy (Nat.pow_pos (by decide))) hz).signed _

end Binary64

end IndexMapping.Decimal
