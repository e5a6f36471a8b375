import Mathlib.Data.List.TakeWhile
import IndexMapping.Proofs.Decimal.Shortest

/-! The layouts of decimals. The value of a decimal can be told from its text, whether the text has
an exponent or a point or neither, so that binary numbers that are written alike are the same. -/

namespace IndexMapping.Decimal

/-! ### The value of a text -/

/-- The number that digits with or without a point stand for. -/
def significandValue (t : List Char) : ℚ :=
  let whole := t.takeWhile Char.isDigit
  let fraction := (t.dropWhile Char.isDigit).drop 1
  Nat.ofDigitChars 10 (whole ++ fraction) 0 / 10 ^ fraction.length

/-- The number that a signed exponent after its letter stands for, if there is one. -/
def exponentValue : List Char → ℤ
  | _ :: sign :: ds =>
    if sign = '-' then -(Nat.ofDigitChars 10 ds 0 : ℕ) else (Nat.ofDigitChars 10 ds 0 : ℕ)
  | _ => 0

/-- The number that a text without a sign stands for. -/
def textValue (t : List Char) : ℚ :=
  significandValue (t.takeWhile (· ≠ 'e')) * 10 ^ exponentValue (t.dropWhile (· ≠ 'e'))

/-- A text of digits. -/
def AllDigits (ds : List Char) : Prop := ∀ c ∈ ds, c.isDigit = true

variable {ds whole fraction t : List Char} {n : ℕ} {e : ℤ} {l : Layout} {s : Scientific}

theorem allDigits_digitsOf (n : ℕ) : AllDigits (digitsOf n) :=
  fun _ hc => Nat.isDigit_of_mem_toDigits (by decide) (by decide) hc

theorem allDigits_zeros (n : ℕ) : AllDigits (zeros n) := by
  intro c hc
  rw [List.eq_of_mem_replicate hc]
  rfl

theorem AllDigits.append (h : AllDigits whole) (h' : AllDigits fraction) :
    AllDigits (whole ++ fraction) := List.forall_mem_append.2 ⟨h, h'⟩

theorem AllDigits.noExponent (h : AllDigits ds) : 'e' ∉ ds := by
  intro hmem
  exact absurd (h _ hmem) (by decide)

theorem significandValue_whole (h : AllDigits whole) :
    significandValue whole = Nat.ofDigitChars 10 whole 0 := by
  have htake : whole.takeWhile Char.isDigit = whole := List.takeWhile_eq_self_iff.2 h
  have hdrop : whole.dropWhile Char.isDigit = [] := List.dropWhile_eq_nil_iff.2 h
  simp [significandValue, htake, hdrop]

theorem significandValue_point (h : AllDigits whole) (fraction : List Char) :
    significandValue (whole ++ '.' :: fraction) =
      Nat.ofDigitChars 10 (whole ++ fraction) 0 / 10 ^ fraction.length := by
  have hpoint : Char.isDigit '.' = false := rfl
  simp only [significandValue, List.takeWhile_append_of_pos h, List.dropWhile_append_of_pos h,
    List.takeWhile_cons_of_neg (Bool.eq_false_iff.1 hpoint),
    List.dropWhile_cons_of_neg (Bool.eq_false_iff.1 hpoint), List.append_nil, List.drop_one,
    List.tail_cons]

theorem textValue_of_noExponent (h : 'e' ∉ t) : textValue t = significandValue t := by
  have hpred : ∀ c ∈ t, decide (c ≠ 'e') = true := fun c hc => by
    rw [decide_eq_true_eq]
    exact fun heq => h (heq ▸ hc)
  rw [textValue, List.takeWhile_eq_self_iff.2 hpred, List.dropWhile_eq_nil_iff.2 hpred]
  simp [exponentValue]

/-- The text of an exponent multiplies by a power of ten. -/
theorem textValue_exponent (h : 'e' ∉ t) (e : ℤ) :
    textValue (t ++ 'e' :: (if e < 0 then '-' else '+') :: digitsOf e.natAbs) =
      significandValue t * 10 ^ e := by
  have hpred : ∀ c ∈ t, decide (c ≠ 'e') = true := fun c hc => by
    rw [decide_eq_true_eq]
    exact fun heq => h (heq ▸ hc)
  have hdigits : Nat.ofDigitChars 10 (digitsOf e.natAbs) 0 = e.natAbs :=
    Nat.ofDigitChars_ten_toDigits
  have hexponent :
      exponentValue ('e' :: (if e < 0 then '-' else '+') :: digitsOf e.natAbs) = e := by
    split_ifs with hneg
    · rw [exponentValue, if_pos rfl, hdigits]
      omega
    · rw [exponentValue, if_neg (by decide), hdigits]
      omega
  rw [textValue, List.takeWhile_append_of_pos hpred, List.dropWhile_append_of_pos hpred,
    List.takeWhile_cons_of_neg (by simp), List.dropWhile_cons_of_neg (by simp), List.append_nil,
    hexponent]

/-! ### Digits -/

theorem ofDigitChars_append_zeros (ds : List Char) (n : ℕ) :
    Nat.ofDigitChars 10 (ds ++ zeros n) 0 = 10 ^ n * Nat.ofDigitChars 10 ds 0 := by
  rw [Nat.ofDigitChars_append, zeros, Nat.ofDigitChars_replicate_zero]

theorem ofDigitChars_zeros_append (ds : List Char) (n : ℕ) :
    Nat.ofDigitChars 10 (zeros n ++ ds) 0 = Nat.ofDigitChars 10 ds 0 := by
  rw [Nat.ofDigitChars_append, zeros, Nat.ofDigitChars_replicate_zero, Nat.mul_zero]

/-- The decimal that digits and an exponent stand for. -/
def digitsValue (ds : List Char) (e : ℤ) : ℚ := Nat.ofDigitChars 10 ds 0 * 10 ^ e

/-- The zeros that are left out are those at the end. -/
theorem trimZeros_append_zeros (ds : List Char) (e : ℤ) :
    ∃ n : ℕ, ds = (trimZeros ds e).1 ++ zeros n ∧ (trimZeros ds e).2 = e + n := by
  have hall : ∀ c ∈ (ds.reverse.takeWhile (· = '0')).reverse, c = '0' := fun c hc => by
    simpa using List.mem_takeWhile_imp (List.mem_reverse.1 hc)
  have hreverse := List.takeWhile_append_dropWhile (p := (· = '0')) (l := ds.reverse)
  have hds : ds = (trimZeros ds e).1 ++ (ds.reverse.takeWhile (· = '0')).reverse := by
    rw [trimZeros, ← List.reverse_append, hreverse, List.reverse_reverse]
  refine ⟨(ds.reverse.takeWhile (· = '0')).reverse.length, ?_, ?_⟩
  · rw [zeros, ← List.eq_replicate_length.2 hall]
    exact hds
  · have hlen := congrArg List.length hds
    rw [List.length_append] at hlen
    show e + (ds.length - (trimZeros ds e).1.length : ℕ) = _
    omega

/-- Some digit of a number that is not zero is kept. -/
theorem allDigits_trimZeros (hn : n ≠ 0) :
    AllDigits (trimZeros (digitsOf n) e).1 ∧ (trimZeros (digitsOf n) e).1 ≠ [] := by
  obtain ⟨z, hds, -⟩ := trimZeros_append_zeros (digitsOf n) e
  constructor
  · have hall := allDigits_digitsOf n
    rw [hds] at hall
    exact (List.forall_mem_append.1 hall).1
  · intro hnil
    rw [hnil, List.nil_append] at hds
    have hnum := congrArg (Nat.ofDigitChars 10 · 0) hds
    simp only [digitsOf, zeros, Nat.ofDigitChars_ten_toDigits,
      Nat.ofDigitChars_replicate_zero] at hnum
    exact hn hnum

/-- Zeros at the end are made up for by the exponent. -/
theorem digitsValue_trimZeros (ds : List Char) (e : ℤ) :
    digitsValue (trimZeros ds e).1 (trimZeros ds e).2 = digitsValue ds e := by
  obtain ⟨n, hds, he⟩ := trimZeros_append_zeros ds e
  have hvalue : Nat.ofDigitChars 10 ds 0 =
      10 ^ n * Nat.ofDigitChars 10 (trimZeros ds e).1 0 := by
    rw [← ofDigitChars_append_zeros, ← hds]
  rw [digitsValue, digitsValue, hvalue, he, zpow_add₀ (by norm_num), zpow_natCast]
  push_cast
  ring

/-! ### Layouts -/

namespace Layout

theorem zpow_of_nonneg {e : ℤ} (he : 0 ≤ e) : (10 : ℚ) ^ e = 10 ^ e.toNat := by
  rw [← zpow_natCast, Int.toNat_of_nonneg he]

theorem zpow_of_neg {e : ℤ} (he : e < 0) : (10 : ℚ) ^ e = (10 ^ (-e).toNat)⁻¹ := by
  rw [← zpow_natCast, ← zpow_neg]
  congr 1
  omega

theorem textValue_whole (h : AllDigits ds) {e : ℤ} (he : 0 ≤ e) :
    textValue (ds ++ zeros e.toNat) = digitsValue ds e := by
  have hdigits : AllDigits (ds ++ zeros e.toNat) := h.append (allDigits_zeros _)
  rw [textValue_of_noExponent hdigits.noExponent, significandValue_whole hdigits,
    ofDigitChars_append_zeros, digitsValue, zpow_of_nonneg he]
  push_cast
  ring

theorem textValue_whole_point (h : AllDigits ds) {e : ℤ} (he : 0 ≤ e) :
    textValue (ds ++ zeros e.toNat ++ ['.', '0']) = digitsValue ds e := by
  have hdigits : AllDigits (ds ++ zeros e.toNat) := h.append (allDigits_zeros _)
  have hnone : 'e' ∉ ds ++ zeros e.toNat ++ ['.', '0'] := by
    simp [h.noExponent, (allDigits_zeros e.toNat).noExponent]
  have hvalue := ofDigitChars_append_zeros (ds ++ zeros e.toNat) 1
  rw [ofDigitChars_append_zeros ds] at hvalue
  rw [textValue_of_noExponent hnone, significandValue_point hdigits]
  show (Nat.ofDigitChars 10 (ds ++ zeros e.toNat ++ zeros 1) 0 : ℚ) / 10 ^ 1 = _
  rw [hvalue, digitsValue, zpow_of_nonneg he]
  push_cast
  ring

/-- The digits behind a point inside are those that the exponent counts. -/
theorem textValue_point_inside (h : AllDigits ds) {e : ℤ} (he : e < 0) {n : ℕ}
    (hn : (n : ℤ) = ds.length + e) :
    textValue (ds.take n ++ '.' :: ds.drop n) = digitsValue ds e := by
  have htake : AllDigits (ds.take n) := fun c hc => h c (List.mem_of_mem_take hc)
  have hdrop : 'e' ∉ ds.drop n := fun hc => h.noExponent (List.mem_of_mem_drop hc)
  have hnone : 'e' ∉ ds.take n ++ '.' :: ds.drop n := by
    simp [htake.noExponent, hdrop]
  have hlen : (ds.drop n).length = (-e).toNat := by
    rw [List.length_drop]
    omega
  rw [textValue_of_noExponent hnone, significandValue_point htake, List.take_append_drop, hlen,
    digitsValue, zpow_of_neg he, div_eq_mul_inv]

/-- Zeros behind a point in front make up for the digits that are missing. -/
theorem textValue_point_before (h : AllDigits ds) {e : ℤ} (he : e < 0) {n : ℕ}
    (hn : (n : ℤ) = -(ds.length + e)) :
    textValue ('0' :: '.' :: zeros n ++ ds) = digitsValue ds e := by
  have hdigits : AllDigits ['0'] := List.forall_mem_singleton.2 rfl
  have hnone : 'e' ∉ '0' :: '.' :: zeros n ++ ds := by
    simp [h.noExponent, (allDigits_zeros _).noExponent]
  have hlen : (zeros n ++ ds).length = (-e).toNat := by
    rw [List.length_append, zeros, List.length_replicate]
    omega
  have hvalue := ofDigitChars_zeros_append ds (n + 1)
  rw [textValue_of_noExponent hnone]
  show significandValue (['0'] ++ '.' :: (zeros n ++ ds)) = _
  rw [significandValue_point hdigits, hlen, digitsValue, zpow_of_neg he, div_eq_mul_inv]
  congr 2

theorem textValue_plain (h : AllDigits ds) (l : Layout) (e : ℤ) :
    textValue (l.plain ds e) = digitsValue ds e := by
  simp only [plain]
  split_ifs with hwhole hzero hpoint
  · exact textValue_whole_point h hwhole
  · rw [List.append_nil]
    exact textValue_whole h hwhole
  · exact textValue_point_inside h (by omega) (by omega)
  · exact textValue_point_before h (by omega) (by omega)

theorem textValue_withExponent (h : AllDigits ds) (hds : ds ≠ []) (e : ℤ) :
    textValue (withExponent ds (ds.length + e - 1)) = digitsValue ds e := by
  obtain ⟨d, ds, rfl⟩ := List.exists_cons_of_ne_nil hds
  have hfirst : AllDigits [d] := List.forall_mem_singleton.2 (h d List.mem_cons_self)
  have hpow : (10 : ℚ) ^ ((d :: ds).length + e - 1 : ℤ) = 10 ^ ds.length * 10 ^ e := by
    rw [← zpow_natCast, ← zpow_add₀ (by norm_num)]
    congr 1
    rw [List.length_cons]
    omega
  have hsignificand : ∀ t, 'e' ∉ t →
      significandValue t = Nat.ofDigitChars 10 (d :: ds) 0 / 10 ^ ds.length →
      textValue (t ++ 'e' :: (if (d :: ds).length + e - 1 < 0 then '-' else '+') ::
        digitsOf ((d :: ds).length + e - 1).natAbs) = digitsValue (d :: ds) e := by
    intro t ht hvalue
    rw [textValue_exponent ht, hvalue, hpow, digitsValue, ← mul_assoc,
      div_mul_cancel₀ _ (by positivity)]
  unfold withExponent
  apply hsignificand
  · have hnone := h.noExponent
    simp only [List.mem_cons, not_or] at hnone
    cases ds with
    | nil => simp [hnone]
    | cons c ds => simpa using hnone
  · cases ds with
    | nil => simpa using significandValue_whole hfirst
    | cons c ds => exact significandValue_point hfirst (c :: ds)

/-- The text of a decimal tells its value. -/
theorem textValue_magnitude (l : Layout) (s : Scientific) :
    textValue (l.magnitude s) = s.value := by
  have hvalue : digitsValue (digitsOf s.digits) s.exponent = s.value := by
    rw [digitsValue, digitsOf, Nat.ofDigitChars_ten_toDigits, Scientific.value]
  unfold magnitude
  split_ifs with hzero
  · rw [textValue_plain (List.forall_mem_singleton.2 rfl)]
    have hnone : Nat.ofDigitChars 10 ['0'] 0 = 0 := rfl
    simp [digitsValue, Scientific.value, hzero, hnone]
  · have htrim := digitsValue_trimZeros (digitsOf s.digits) s.exponent
    obtain ⟨hdigits, hne⟩ := allDigits_trimZeros hzero
    rw [← hvalue, ← htrim]
    generalize trimZeros (digitsOf s.digits) s.exponent = trimmed at hdigits hne
    obtain ⟨ds, e⟩ := trimmed
    simp only
    split
    · exact textValue_plain hdigits l e
    · split_ifs
      · exact textValue_plain hdigits l e
      · exact textValue_withExponent hdigits hne e

/-! ### Characters -/

/-- What stands after the whole digits of a number: nothing if no point is asked for, else a point
or an exponent. -/
inductive Ends (l : Layout) : List Char → Prop
  | whole (h : l.pointZero = false) : Ends l []
  | part {c : Char} {cs : List Char} (hc : c = '.' ∨ c = 'e')
      (hcs : ∀ d ∈ cs, d.isDigit = true ∨ d = 'e' ∨ d = '+' ∨ d = '-') : Ends l (c :: cs)

/-- The text starts with whole digits. -/
def Shaped (l : Layout) (t : List Char) : Prop :=
  ∃ d ds rest, t = d :: (ds ++ rest) ∧ AllDigits (d :: ds) ∧ l.Ends rest

theorem shaped_plain (h : AllDigits ds) (hds : ds ≠ []) (l : Layout) (e : ℤ) :
    l.Shaped (l.plain ds e) := by
  obtain ⟨d, ds, rfl⟩ := List.exists_cons_of_ne_nil hds
  obtain ⟨hd, hds'⟩ := List.forall_mem_cons.1 h
  simp only [plain]
  split_ifs with hwhole hzero hpoint
  · have hall := h.append (allDigits_zeros e.toNat)
    have hend : ∀ c ∈ ['0'], c.isDigit = true ∨ c = 'e' ∨ c = '+' ∨ c = '-' := by
      intro c hc
      rw [List.mem_singleton.1 hc]
      exact .inl rfl
    exact ⟨d, ds ++ zeros e.toNat, ['.', '0'], rfl, hall, .part (.inl rfl) hend⟩
  · have hall := h.append (allDigits_zeros e.toNat)
    exact ⟨d, ds ++ zeros e.toNat, [], rfl, hall, .whole (Bool.eq_false_iff.2 hzero)⟩
  · obtain ⟨p, hp⟩ : ∃ p, ((d :: ds).length + e).toNat = p + 1 :=
      Nat.exists_eq_succ_of_ne_zero (by omega)
    rw [hp]
    refine ⟨d, ds.take p, '.' :: ds.drop p, rfl, List.forall_mem_cons.2 ⟨hd, ?_⟩,
      .part (.inl rfl) ?_⟩
    · exact fun c hc => hds' c (List.mem_of_mem_take hc)
    · exact fun c hc => .inl (hds' c (List.mem_of_mem_drop hc))
  · have hall := (allDigits_zeros (-((d :: ds).length + e)).toNat).append h
    exact ⟨'0', [], _, rfl, List.forall_mem_singleton.2 rfl,
      .part (.inl rfl) fun c hc => .inl (hall c hc)⟩

theorem shaped_withExponent (h : AllDigits ds) (hds : ds ≠ []) (l : Layout) (e : ℤ) :
    l.Shaped (withExponent ds e) := by
  obtain ⟨d, ds, rfl⟩ := List.exists_cons_of_ne_nil hds
  obtain ⟨hd, hds'⟩ := List.forall_mem_cons.1 h
  have hexponent : ∀ c ∈ (if e < 0 then '-' else '+') :: digitsOf e.natAbs,
      c.isDigit = true ∨ c = 'e' ∨ c = '+' ∨ c = '-' := by
    refine List.forall_mem_cons.2 ⟨?_, fun c hc => .inl (allDigits_digitsOf _ c hc)⟩
    split_ifs <;> decide
  cases ds with
  | nil => exact ⟨d, [], _, rfl, List.forall_mem_singleton.2 hd, .part (.inr rfl) hexponent⟩
  | cons c ds =>
    refine ⟨d, [], '.' :: (c :: ds ++ 'e' :: _), rfl, List.forall_mem_singleton.2 hd,
      .part (.inl rfl) (List.forall_mem_append.2 ⟨fun c hc => .inl (hds' c hc), ?_⟩)⟩
    exact List.forall_mem_cons.2 ⟨by decide, hexponent⟩

theorem shaped_magnitude (l : Layout) (s : Scientific) : l.Shaped (l.magnitude s) := by
  unfold magnitude
  split_ifs with hzero
  · exact shaped_plain (List.forall_mem_singleton.2 rfl) (List.cons_ne_nil _ _) l 0
  · obtain ⟨hdigits, hne⟩ := allDigits_trimZeros hzero
    generalize trimZeros (digitsOf s.digits) s.exponent = trimmed at hdigits hne
    obtain ⟨ds, e⟩ := trimmed
    simp only
    split
    · exact shaped_plain hdigits hne l e
    · split_ifs
      · exact shaped_plain hdigits hne l e
      · exact shaped_withExponent hdigits hne l _

/-- Numbers of the format that are written alike are the same. -/
theorem eq_of_write {x y : Binary64} (hx : x.Regular) (hy : y.Regular)
    (h : l.write x = l.write y) : x = y := by
  have hsign : x.negative = y.negative ∧ l.magnitude (Shortest.ofBinary l.tie x) =
      l.magnitude (Shortest.ofBinary l.tie y) := by
    obtain ⟨c, cs, rest, hcs, hc, -⟩ := shaped_magnitude l (Shortest.ofBinary l.tie x)
    obtain ⟨d, ds, rest', hds, hd, -⟩ := shaped_magnitude l (Shortest.ofBinary l.tie y)
    have hc' : c ≠ '-' := fun heq => absurd (hc c List.mem_cons_self) (by rw [heq]; decide)
    have hd' : d ≠ '-' := fun heq => absurd (hd d List.mem_cons_self) (by rw [heq]; decide)
    unfold write at h
    rw [hcs, hds] at h ⊢
    cases hxs : x.negative with
    | false =>
      cases hys : y.negative with
      | false => simpa [hxs, hys] using h
      | true =>
        rw [hxs, hys] at h
        exact absurd (List.cons.inj h).1 hc'
    | true =>
      cases hys : y.negative with
      | false =>
        rw [hxs, hys] at h
        exact absurd (List.cons.inj h).1.symm hd'
      | true => simpa [hxs, hys] using h
  obtain ⟨hnegative, hmagnitude⟩ := hsign
  have hvalue : (Shortest.ofBinary l.tie x).value = (Shortest.ofBinary l.tie y).value := by
    rw [← textValue_magnitude l, hmagnitude, textValue_magnitude]
  have hparts : x.mantissa = y.mantissa ∧ x.exponent = y.exponent :=
    Shortest.eq_of_value_ofBinary hx hy hvalue
  cases x
  cases y
  simp_all

end Layout

end IndexMapping.Decimal
