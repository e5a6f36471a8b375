import IndexMapping.Json.Reader

/-! Whole numbers are read back as they are written, as long as a significand can hold them. -/

namespace IndexMapping.Json

variable {rest : List Char} {n : Nat}

/-- The text does not go on with a part of a number. -/
def EndsNumber (rest : List Char) : Prop :=
  ∀ c ∈ rest.head?, isDigit c = false ∧ c ≠ '.' ∧ isExponentLetter c = false

theorem isDigit_eq (c : Char) : isDigit c = c.isDigit := by
  simp only [isDigit, Char.isDigit, Char.le_def, ge_iff_le]

/-! ### Digits -/

theorem exists_digitsOf_eq_cons (n : Nat) :
    ∃ d ds, Decimal.digitsOf n = d :: ds ∧ isDigit d = true ∧ ∀ c ∈ ds, isDigit c = true := by
  have hdigits : ∀ c ∈ Decimal.digitsOf n, isDigit c = true := by
    intro c hc
    rw [isDigit_eq]
    exact Nat.isDigit_of_mem_toDigits (by decide) (by decide) hc
  cases hn : Decimal.digitsOf n with
  | nil => exact absurd hn Nat.toDigits_ne_nil
  | cons d ds =>
    rw [hn] at hdigits
    obtain ⟨hd, hds⟩ := List.forall_mem_cons.1 hdigits
    exact ⟨d, ds, rfl, hd, hds⟩

theorem digitChar_ne_zero : ∀ d < 10, 0 < d → Nat.digitChar d ≠ '0' := by decide

theorem head_digitsOf (hn : 0 < n) : (Decimal.digitsOf n).head? ≠ some '0' := by
  induction n using Nat.strongRecOn with
  | ind n ih =>
    rw [Decimal.digitsOf, Nat.toDigits_eq_if (by decide)]
    split
    next hlt => simpa using digitChar_ne_zero n hlt hn
    next hge =>
      rw [List.head?_append, Option.or_of_isSome (List.isSome_head?.2 Nat.toDigits_ne_nil)]
      exact ih (n / 10) (by omega) (by omega)

theorem le_ofDigitChars (ds : List Char) (s : Nat) : s ≤ Nat.ofDigitChars 10 ds s := by
  have hpow : 0 < 10 ^ ds.length := Nat.pow_pos (by decide)
  have hle := Nat.le_mul_of_pos_left s hpow
  rw [Nat.ofDigitChars_eq_ofDigitChars_zero]
  omega

/-- All digits are gathered as long as they fit; the significand grows with each of them. -/
theorem gather_append (hr : EndsNumber rest) (ds : List Char) (hd : ∀ c ∈ ds, isDigit c = true)
    (s taken : Nat) (hs : Nat.ofDigitChars 10 ds s ≤ maxSignificand) :
    gather s taken (ds ++ rest) = (Nat.ofDigitChars 10 ds s, taken + ds.length, rest) := by
  induction ds generalizing s taken with
  | nil =>
    cases rest with
    | nil => rfl
    | cons c rest => simp [gather, (hr c rfl).1]
  | cons d ds ih =>
    obtain ⟨hd, hds⟩ := List.forall_mem_cons.1 hd
    have hval : s * 10 + digitValue d = 10 * s + (d.toNat - '0'.toNat) := by
      rw [Nat.mul_comm, digitValue]
    rw [Nat.ofDigitChars_cons, ← hval] at hs ⊢
    have hfits := Nat.le_trans (le_ofDigitChars ds (s * 10 + digitValue d)) hs
    rw [List.cons_append, gather, if_pos hd, if_neg (by omega), ih hds _ _ hs, List.length_cons,
      Nat.add_right_comm, Nat.add_assoc]

/-! ### Whole numbers -/

theorem readNumberEnd_of_endsNumber (hr : EndsNumber rest) (negative : Bool) (s : Nat) :
    readNumberEnd negative s 0 rest = .ok (wholeNumber negative s, rest) := by
  cases rest with
  | nil => rfl
  | cons c rest =>
    obtain ⟨-, hpoint, hexp⟩ := hr c rfl
    simp [readNumberEnd, hpoint, hexp]

theorem readNumber_zero (hr : EndsNumber rest) (negative : Bool) :
    readNumber negative ('0' :: rest) = .ok (wholeNumber negative 0, rest) := by
  rw [← readNumberEnd_of_endsNumber hr]
  cases rest with
  | nil => rfl
  | cons c rest => simp [readNumber, (hr c rfl).1]

theorem readNumber_of_gather {d : Char} {cs : List Char} {s taken : Nat} (hr : EndsNumber rest)
    (hzero : d ≠ '0') (hd : isDigit d = true)
    (hg : gather (digitValue d) 0 cs = (s, taken, rest)) (negative : Bool) :
    readNumber negative (d :: cs) = .ok (wholeNumber negative s, rest) := by
  have hnone : rest.takeWhile isDigit = [] := by
    cases rest with
    | nil => rfl
    | cons c rest => simp [(hr c rfl).1]
  rw [← readNumberEnd_of_endsNumber hr]
  simp only [readNumber, if_neg hzero, if_pos hd, hg, hnone, List.length_nil, List.drop_zero]

theorem readNumber_digitsOf (hr : EndsNumber rest) (hn : n ≤ maxSignificand) (negative : Bool) :
    readNumber negative (Decimal.digitsOf n ++ rest) = .ok (wholeNumber negative n, rest) := by
  rcases Nat.eq_zero_or_pos n with rfl | hpos
  · rw [Decimal.digitsOf, Nat.toDigits_zero, List.singleton_append]
    exact readNumber_zero hr negative
  · have hval : Nat.ofDigitChars 10 (Decimal.digitsOf n) 0 = n := Nat.ofDigitChars_ten_toDigits
    have hhead := head_digitsOf hpos
    obtain ⟨d, ds, hcons, hd, hds⟩ := exists_digitsOf_eq_cons n
    rw [hcons] at hval hhead ⊢
    rw [Nat.ofDigitChars_cons, Nat.mul_zero, Nat.zero_add] at hval
    have hg := gather_append hr ds hds (digitValue d) 0 (by rwa [digitValue, hval])
    rw [digitValue, hval] at hg
    exact readNumber_of_gather hr (fun h => hhead (by rw [h]; rfl)) hd hg negative

/-- A negative number that a signed word can hold is no float. -/
theorem wholeNumber_neg {n : Int} (hneg : n < 0) (hn : Decimal.minSigned ≤ n) :
    wholeNumber true n.natAbs = .integer n := by
  have hval : -(n.natAbs : Int) = n := by omega
  have hzero : n.natAbs ≠ 0 := by omega
  have hmax : n ≤ Decimal.maxSigned := by
    rw [Decimal.maxSigned]
    omega
  have hfits : Decimal.fitsSigned n = true := by simp [Decimal.fitsSigned, hn, hmax]
  rw [wholeNumber, if_neg (by decide), hval, if_neg (by simp [hzero, hfits])]

end IndexMapping.Json
