import IndexMapping.Text.Characters
import Mathlib.Tactic.SplitIfs

/-! Letter case. No character is both upper case and lower case, the letters of ASCII have their
usual case, and no other character becomes an underscore in lower case. -/

namespace IndexMapping.Text

variable {c : Char} {n : Nat} {r r' : Nat × Nat × Nat}

/-! ### Runs of code points -/

/-- All members of a run are even, or all are odd. -/
def hasParity : Nat × Nat × Nat → Bool
  | (first, last, step) => first == last || step == 2

/-- The runs lie apart, or the members of one are even and those of the other odd. It is evaluated
for all pairs of runs of two tables, so it compares by `Nat.blt`. -/
def areApart (r r' : Nat × Nat × Nat) : Bool :=
  Nat.blt r.2.1 r'.1 || Nat.blt r'.2.1 r.1 ||
    (hasParity r && hasParity r' && r.1 % 2 != r'.1 % 2)

theorem bounds_of_inRun (h : inRun n r) : r.1 ≤ n ∧ n ≤ r.2.1 := by
  simp only [inRun, Bool.and_eq_true, decide_eq_true_eq] at h
  exact h.1

theorem mod_two_of_inRun (h : inRun n r) (hr : hasParity r) : n % 2 = r.1 % 2 := by
  obtain ⟨first, last, step⟩ := r
  simp only [inRun, Bool.and_eq_true, decide_eq_true_eq, beq_iff_eq] at h
  simp only [hasParity, Bool.or_eq_true, beq_iff_eq] at hr
  obtain ⟨⟨hfirst, hlast⟩, hstep⟩ := h
  rcases hr with rfl | rfl
  · rw [Nat.le_antisymm hlast hfirst]
  · omega

theorem inRun_eq_false_of_areApart (h : areApart r r') (hr : inRun n r) : inRun n r' = false := by
  rw [Bool.eq_false_iff]
  intro hr'
  obtain ⟨hlow, hhigh⟩ := bounds_of_inRun hr
  obtain ⟨hlow', hhigh'⟩ := bounds_of_inRun hr'
  simp only [areApart, Bool.or_eq_true, Bool.and_eq_true, Nat.blt_eq, bne_iff_ne] at h
  rcases h with (h | h) | ⟨⟨hparity, hparity'⟩, h⟩
  · omega
  · omega
  · exact h ((mod_two_of_inRun hr hparity).symm.trans (mod_two_of_inRun hr' hparity'))

/-! ### ASCII -/

theorem isUpper_eq (c : Char) : c.isUpper = decide ('A' ≤ c ∧ c ≤ 'Z') := rfl

theorem isLower_eq (c : Char) : c.isLower = (decide ('a' ≤ c) && decide (c ≤ 'z')) := rfl

theorem isAlpha_eq (c : Char) : c.isAlpha = (c.isUpper || c.isLower) := rfl

theorem isAlpha_of_isUpper (h : c.isUpper) : c.isAlpha := by
  rw [isAlpha_eq, h, Bool.true_or]

theorem isAlpha_of_isLower (h : c.isLower) : c.isAlpha := by
  rw [isAlpha_eq, h, Bool.or_true]

theorem isUppercase_of_ascii (h : c.val < 0x80) : isUppercase c = c.isUpper := by
  rw [isUppercase, if_pos h, isUpper_eq, Bool.decide_and]

theorem isLowercase_of_ascii (h : c.val < 0x80) : isLowercase c = c.isLower := by
  rw [isLowercase, if_pos h, isLower_eq]

theorem lowercase_of_ascii (h : c.val < 0x80) : lowercase c = [c.toLower] := by
  have hall : ∀ n : Fin 0x80, lowercase (Char.ofNat n) = [(Char.ofNat n).toLower] := by decide
  simpa using hall ⟨c.toNat, h⟩

theorem ascii_of_isAlpha (h : c.isAlpha) : c.val < 0x80 := by
  simp only [isAlpha_eq, isUpper_eq, isLower_eq, Bool.or_eq_true, decide_eq_true_eq,
    Bool.and_eq_true, Char.le_def, UInt32.le_iff_toNat_le] at h
  have hZ : 'Z'.val.toNat < 0x80 := by decide
  have hz : 'z'.val.toNat < 0x80 := by decide
  rw [UInt32.lt_iff_toNat_lt]
  change c.val.toNat < 0x80
  omega

/-! ### Upper case and lower case -/

theorem areApart_tables :
    ∀ r ∈ CaseTable.uppercase, ∀ r' ∈ CaseTable.lowercase, areApart r r' := by
  have hall : CaseTable.uppercase.all fun r => CaseTable.lowercase.all (areApart r) := by
    decide +kernel
  simpa only [List.all_eq_true] using hall

theorem isLowercase_of_isUppercase (h : isUppercase c) : isLowercase c = false := by
  unfold isUppercase at h
  unfold isLowercase
  split_ifs at h ⊢
  · simp only [Bool.and_eq_true, decide_eq_true_eq, Char.le_def, UInt32.le_iff_toNat_le] at h
    have hletters : 'Z'.val.toNat < 'a'.val.toNat := by decide
    simp only [Bool.and_eq_false_iff, decide_eq_false_iff_not, Char.le_def, UInt32.le_iff_toNat_le]
    omega
  · obtain ⟨r, hr, hc⟩ := List.any_eq_true.1 h
    simp only [List.any_eq_false, Bool.not_eq_true]
    exact fun r' hr' => inRun_eq_false_of_areApart (areApart_tables r hr r' hr') hc

theorem isUppercase_of_isLowercase (h : isLowercase c) : isUppercase c = false := by
  rw [Bool.eq_false_iff]
  intro hupper
  rw [isLowercase_of_isUppercase hupper] at h
  cases h

theorem isLower_eq_false_of_isUpper (h : c.isUpper) : c.isLower = false := by
  have hascii : c.val < 0x80 := ascii_of_isAlpha (isAlpha_of_isUpper h)
  rw [← isLowercase_of_ascii hascii]
  exact isLowercase_of_isUppercase ((isUppercase_of_ascii hascii).trans h)

theorem isUpper_eq_false_of_isLower (h : c.isLower) : c.isUpper = false := by
  rw [Bool.eq_false_iff]
  intro hupper
  rw [isLower_eq_false_of_isUpper hupper] at h
  cases h

theorem toLower_of_isLower (h : c.isLower) : c.toLower = c := by
  have hall : ∀ n : Fin 0x80, (Char.ofNat n).isLower → (Char.ofNat n).toLower = Char.ofNat n := by
    decide
  simpa [h] using hall ⟨c.toNat, ascii_of_isAlpha (isAlpha_of_isLower h)⟩

/-! ### Underscores -/

/-- The lower case of a character is in ASCII, the character itself, the two characters of the
dotted capital I, or the letter that the table gives. -/
theorem lowercase_cases (c : Char) :
    (c.val < 0x80 ∧ lowercase c = [c.toLower]) ∨ lowercase c = [c] ∨
      (c = 'İ' ∧ lowercase c = ['i', '\u0307']) ∨
      ∃ r ∈ CaseTable.shift, inRun c.toNat (r.1, r.2.1, r.2.2.1) ∧
        lowercase c = [Char.ofNat (c.toNat + r.2.2.2).toNat] := by
  by_cases hascii : c.val < 0x80
  · exact .inl ⟨hascii, lowercase_of_ascii hascii⟩
  by_cases hdotted : c = 'İ'
  · exact .inr (.inr (.inl ⟨hdotted, hdotted ▸ rfl⟩))
  unfold lowercase
  rw [if_neg hascii, if_neg hdotted]
  dsimp only
  split
  next run first last step d hfind =>
    have hrun : inRun c.toNat (first, last, step) := by simpa using List.find?_some hfind
    exact .inr (.inr (.inr ⟨_, List.mem_of_find?_eq_some hfind, hrun, rfl⟩))
  next => exact .inr (.inl rfl)

theorem lowercase_ne_nil (c : Char) : lowercase c ≠ [] := by
  rcases lowercase_cases c with ⟨-, h⟩ | h | ⟨-, h⟩ | ⟨_, -, -, h⟩ <;>
    exact h ▸ List.cons_ne_nil _ _

/-- All letters that the table gives come after the underscore. -/
theorem underscore_lt_shift :
    ∀ r ∈ CaseTable.shift, ('_'.toNat : Int) < r.1 + r.2.2.2 := by
  decide +kernel

/-- Only the underscore has an underscore in lower case. -/
theorem underscore_mem_lowercase_iff : '_' ∈ lowercase c ↔ c = '_' := by
  rcases lowercase_cases c with ⟨hascii, -⟩ | h | ⟨rfl, -⟩ | ⟨r, hr, hrun, h⟩
  · have hall : ∀ n : Fin 0x80, '_' ∈ lowercase (Char.ofNat n) ↔ Char.ofNat n = '_' := by decide
    simpa using hall ⟨c.toNat, hascii⟩
  · rw [h, List.mem_singleton, eq_comm]
  · decide
  · have hbounds := bounds_of_inRun hrun
    have hshift := underscore_lt_shift r hr
    have hne : Char.ofNat (c.toNat + r.2.2.2).toNat ≠ '_' := by
      intro heq
      by_cases hvalid : (c.toNat + r.2.2.2).toNat.isValidChar
      · have hsame : (c.toNat + r.2.2.2).toNat = '_'.toNat :=
          congrArg Char.toNat ((dif_pos hvalid).symm.trans heq)
        omega
      · exact absurd ((dif_neg hvalid).symm.trans heq) (by decide)
    constructor
    · rw [h, List.mem_singleton]
      exact fun heq => absurd heq.symm hne
    · rintro rfl
      rw [lowercase_of_ascii (by decide)] at h
      exact absurd (List.cons.inj h).1.symm hne

end IndexMapping.Text
