import IndexMapping.Proofs.Decimal.Layout
import IndexMapping.Proofs.Json.Numbers
import IndexMapping.Settings.Layer

/-! How the text of a variable is printed again. A text setting does not take the text of its
variable itself but that of the truth value or the number that it is read as, if it is read as one.
That is the same text only for the usual form of a value. -/

namespace IndexMapping.Settings

variable {text : String} {c : Char} {cs ds : List Char} {n : Int}

/-! ### Whole numbers -/

theorem digitChar_of_isDigit (h : KeyPath.isDigit c) :
    c.toNat - '0'.toNat < 10 ∧ Nat.digitChar (c.toNat - '0'.toNat) = c := by
  simp only [KeyPath.isDigit, Bool.and_eq_true, decide_eq_true_eq, Char.le_def,
    UInt32.le_iff_toNat_le] at h
  have hlow : '0'.toNat ≤ c.toNat := h.1
  have hlt : c.toNat - '0'.toNat < 10 := (Nat.sub_lt_iff_lt_add hlow).2 (Nat.lt_succ_of_le h.2)
  refine ⟨hlt, Char.toNat_inj.1 ?_⟩
  rw [Nat.toNat_digitChar_of_lt_ten hlt]
  exact Nat.add_sub_cancel' hlow

theorem ofDigits_concat : KeyPath.ofDigits (ds ++ [c]) =
    KeyPath.ofDigits ds * 10 + (c.toNat - '0'.toNat) := List.foldl_concat ..

/-- Digits that do not start with zero are those of the number that they are read as. -/
theorem toDigits_ofDigits (hne : ds ≠ []) (hds : ∀ c ∈ ds, KeyPath.isDigit c)
    (hhead : ds.head? ≠ some '0') :
    0 < KeyPath.ofDigits ds ∧ Nat.toDigits 10 (KeyPath.ofDigits ds) = ds := by
  -- A digit more at the end makes a number ten times as great, and some.
  induction ds using List.reverseRecOn with
  | nil => exact absurd rfl hne
  | append_singleton ds c ih =>
    obtain ⟨hbefore, hc⟩ := List.forall_mem_append.1 hds
    obtain ⟨hlt, hchar⟩ := digitChar_of_isDigit (hc c List.mem_cons_self)
    rw [ofDigits_concat]
    by_cases hempty : ds = []
    · subst hempty
      have hzero : c.toNat - '0'.toNat ≠ 0 := by
        intro hzero
        rw [hzero] at hchar
        simp [← hchar] at hhead
      rw [KeyPath.ofDigits, List.foldl_nil, Nat.zero_mul, Nat.zero_add,
        Nat.toDigits_of_lt_base hlt, hchar]
      exact ⟨Nat.pos_of_ne_zero hzero, rfl⟩
    · rw [List.head?_append_of_ne_nil _ hempty] at hhead
      obtain ⟨hpos, hdigits⟩ := ih hempty hbefore hhead
      refine ⟨by omega, ?_⟩
      rw [Nat.mul_comm, ← Nat.toDigits_append_toDigits (by decide) hpos hlt, hdigits,
        Nat.toDigits_of_lt_base hlt, hchar]

theorem toDigits_ofDigits_iff (hne : ds ≠ []) (hds : ∀ c ∈ ds, KeyPath.isDigit c) :
    Nat.toDigits 10 (KeyPath.ofDigits ds) = ds ↔ ds = ['0'] ∨ ds.head? ≠ some '0' := by
  constructor
  · intro h
    rcases Nat.eq_zero_or_pos (KeyPath.ofDigits ds) with hzero | hpos
    · exact .inl (by rw [← h, hzero, Nat.toDigits_zero])
    · exact .inr (h ▸ Json.head_digitsOf hpos)
  · rintro (rfl | hhead)
    · rfl
    · exact (toDigits_ofDigits hne hds hhead).2

theorem toList_toString (n : Int) : (toString n).toList =
    (if n < 0 then ['-'] else []) ++ Nat.toDigits 10 n.natAbs := by
  rw [Int.toString_eq_repr]
  cases n with
  | ofNat n =>
    rw [Int.repr, Nat.toList_repr, if_neg (Int.not_lt.2 (Int.natCast_nonneg n) : ¬ Int.ofNat n < 0)]
    rfl
  | negSucc n =>
    rw [Int.repr, String.toList_append, Nat.toList_repr, if_pos (Int.negSucc_lt_zero n)]
    rfl

/-- The usual form of a whole number: without a plus sign, zeros before its digits, or a minus sign
before zero. -/
def Usual (cs : List Char) : Prop :=
  cs = ['0'] ∨ cs.head? ≠ some '+' ∧ (splitSign cs).2.head? ≠ some '0'

theorem eq_of_wholeNumber? (h : wholeNumber? cs = some n) :
    (splitSign cs).2 ≠ [] ∧ (∀ c ∈ (splitSign cs).2, KeyPath.isDigit c) ∧
      n = if (splitSign cs).1 then -(KeyPath.ofDigits (splitSign cs).2 : Int)
        else KeyPath.ofDigits (splitSign cs).2 := by
  simp only [wholeNumber?] at h
  split_ifs at h with hdigits hsign <;> simp_all

theorem head_toString_ne_plus (n : Int) : (toString n).toList.head? ≠ some '+' := by
  rw [toList_toString]
  split_ifs
  · simp
  · intro h
    exact absurd (Decimal.allDigits_digitsOf _ _ (List.mem_of_mem_head? h)) (by decide)

theorem toString_eq_iff_usual (h : wholeNumber? cs = some n) :
    (toString n).toList = cs ↔ Usual cs := by
  obtain ⟨hne, hds, hn⟩ := eq_of_wholeNumber? h
  unfold Usual
  revert hne hds hn
  fun_cases splitSign cs with
  | case1 ds =>
    intro _ _ _
    have htext : (toString n).toList ≠ '+' :: ds := fun heq =>
      head_toString_ne_plus n (by rw [heq, List.head?_cons])
    simp only [htext, false_iff]
    simp
  | case2 ds =>
    intro hne hds hn
    have hn : n = -(KeyPath.ofDigits ds : Int) := hn
    rw [hn, toList_toString, Int.natAbs_neg, Int.natAbs_natCast]
    rcases Nat.eq_zero_or_pos (KeyPath.ofDigits ds) with hzero | hpos
    · have hhead : ds.head? = some '0' := by
        by_contra hhead
        exact absurd (toDigits_ofDigits hne hds hhead).1 (by omega)
      simp [hzero, hhead]
    · have hdigits : ds ≠ ['0'] := by
        rintro rfl
        exact absurd hpos (by decide)
      have hiff := toDigits_ofDigits_iff hne hds
      rw [if_pos (by omega), List.singleton_append, List.cons.injEq, hiff]
      simp [hdigits]
  | case3 _ hplus hminus =>
    intro hne hds hn
    have hn : n = (KeyPath.ofDigits cs : Int) := hn
    have hhead : cs.head? ≠ some '+' := by
      intro hhead
      obtain ⟨ds, rfl⟩ := List.head?_eq_some_iff.1 hhead
      exact hplus ds rfl
    rw [hn, toList_toString, if_neg (by omega), List.nil_append, Int.natAbs_natCast,
      toDigits_ofDigits_iff hne hds]
    simp [hhead]

/-! ### Texts of variables -/

/-- The text that a text setting takes from the text of a variable. -/
def printed (text : String) : String :=
  match variableScalar text with
  | .nil => ""
  | .bool b => toString b
  | .integer n => toString n
  | .float x => Value.floatText Value.plainLayout x
  | .string s => s

/-- Truth values in small letters, whole numbers in their usual form, other numbers in the shortest
form without an exponent, and all that is read as none of these. -/
structure Kept (text : String) : Prop where
  word : Text.lower text ∈ ["true", "false"] → Text.lower text = text
  whole : (wholeNumber? text.toList).isSome → Usual text.toList
  real : wholeNumber? text.toList = none → ∀ x, real? text.toList = some x →
    Value.floatText Value.plainLayout x = text

theorem text?_variable (origin : Option String) (text : String) :
    (Value.scalar origin (variableScalar text)).text? = some (printed text) := by
  have hnil : variableScalar text ≠ .nil := by
    unfold variableScalar
    grind
  unfold printed
  cases h : variableScalar text with
  | nil => exact absurd h hnil
  | bool b => rfl
  | integer n => rfl
  | float x => rfl
  | string s => rfl

theorem kept_of_word (hword : text ∈ ["true", "false"]) : Kept text := by
  have hnumber : wholeNumber? text.toList = none ∧ real? text.toList = none ∧
      Text.lower text = text := by
    revert text
    decide +kernel
  obtain ⟨hwhole, hreal, hlower⟩ := hnumber
  exact ⟨fun _ => hlower, by simp [hwhole], by simp [hreal]⟩

/-- A text is printed as it is just when it is in the form in which its value is printed. -/
theorem printed_eq_iff_kept (text : String) : printed text = text ↔ Kept text := by
  by_cases hword : Text.lower text ∈ ["true", "false"]
  · have hprinted : printed text = Text.lower text := by
      rcases List.mem_pair.1 hword with h | h <;> simp [printed, variableScalar, h] <;> rfl
    rw [hprinted]
    exact ⟨fun h => kept_of_word (h ▸ hword), fun h => h.word hword⟩
  · have hnot : Text.lower text ≠ "true" ∧ Text.lower text ≠ "false" := by simpa using hword
    simp only [printed, variableScalar, if_neg hnot.1, if_neg hnot.2]
    cases hwhole : wholeNumber? text.toList with
    | some n =>
      have husual := toString_eq_iff_usual hwhole
      rw [String.toList_inj] at husual
      exact husual.trans ⟨fun h => ⟨fun hmem => absurd hmem hword, fun _ => h, by simp [hwhole]⟩,
        fun h => h.whole (by simp [hwhole])⟩
    | none =>
      cases hreal : real? text.toList with
      | some x =>
        refine ⟨fun h => ⟨fun hmem => absurd hmem hword, by simp [hwhole], fun _ y hy => ?_⟩,
          fun h => h.real hwhole x hreal⟩
        obtain rfl : x = y := Option.some.inj (hreal.symm.trans hy)
        exact h
      | none => exact ⟨fun _ => ⟨fun hmem => absurd hmem hword, by simp [hwhole],
          by simp [hreal]⟩, fun _ => rfl⟩

example : ["True", "+1", "1.50", "1e3", "1.x"].map printed =
    ["true", "1", "1.5", "1000", "1.x"] := by decide +kernel

end IndexMapping.Settings
