import IndexMapping.Json.Reader
import IndexMapping.Proofs.Outcome
import Mathlib.Tactic.SplitIfs

/-! Strings are read back as they are written, whatever characters they hold. -/

namespace IndexMapping.Json

theorem hexValue_digitChar : ∀ d < 16, hexValue (Nat.digitChar d) = some d := by decide

/-- How a character is written: by a letter, by its number, or as it is. -/
theorem escapeChar_cases (c : Char) :
    (∃ e, escapeChar c = ['\\', e] ∧ e ≠ 'u' ∧ shortEscape e = some c) ∨
      (c < ' ' ∧ escapeChar c = ['\\', 'u', '0', '0'] ++ lowHex c.toNat) ∨
      (c ≠ '"' ∧ c ≠ '\\' ∧ ¬ c < ' ' ∧ escapeChar c = [c]) := by
  unfold escapeChar
  split_ifs with h₁ h₂ h₃ h₄ h₅ h₆ h₇ h₈
  · exact .inl ⟨'"', rfl, by decide, by rw [h₁]; rfl⟩
  · exact .inl ⟨'\\', rfl, by decide, by rw [h₂]; rfl⟩
  · exact .inl ⟨'b', rfl, by decide, by rw [h₃]; rfl⟩
  · exact .inl ⟨'f', rfl, by decide, by rw [h₄]; rfl⟩
  · exact .inl ⟨'n', rfl, by decide, by rw [h₅]; rfl⟩
  · exact .inl ⟨'r', rfl, by decide, by rw [h₆]; rfl⟩
  · exact .inl ⟨'t', rfl, by decide, by rw [h₇]; rfl⟩
  · exact .inr (.inl ⟨h₈, rfl⟩)
  · exact .inr (.inr ⟨h₁, h₂, h₈, rfl⟩)

theorem escapeChar_ne_nil (c : Char) : escapeChar c ≠ [] := by
  rcases escapeChar_cases c with ⟨e, he, -⟩ | ⟨-, he⟩ | ⟨-, -, -, he⟩ <;> simp [he]

theorem readHex_lowHex {n : Nat} (hn : n < 256) (rest : List Char) :
    readHex ('0' :: '0' :: (lowHex n ++ rest)) = .ok (n, rest) := by
  have h₁ := hexValue_digitChar (n / 16) (by omega)
  have h₂ := hexValue_digitChar (n % 16) (by omega)
  have h₀ : hexValue '0' = some 0 := by decide
  have hsum : ((0 * 16 + 0) * 16 + n / 16) * 16 + n % 16 = n := by omega
  simp only [lowHex, List.cons_append, List.nil_append, readHex, h₀, h₁, h₂, hsum]

theorem readEscape_control {c : Char} (hc : c < ' ') (rest : List Char) :
    readEscape ('u' :: '0' :: '0' :: (lowHex c.toNat ++ rest)) = .ok (c, rest) := by
  have hlt : c.toNat < 32 := hc
  have ht : isTrailingSurrogate c.toNat = false := by
    simp only [isTrailingSurrogate, Bool.and_eq_false_imp, decide_eq_true_eq]
    omega
  have hl : isLeadingSurrogate c.toNat = false := by
    simp only [isLeadingSurrogate, Bool.and_eq_false_imp, decide_eq_true_eq]
    omega
  rw [readEscape, if_pos rfl, readCodePoint, readHex_lowHex (by omega)]
  simp [ht, hl]

/-- A written character is read as that character. -/
theorem readChars_escapeChar (fuel : Nat) (acc : List Char) (c : Char) (rest : List Char) :
    readChars (fuel + 1) acc (escapeChar c ++ rest) = readChars fuel (c :: acc) rest := by
  rcases escapeChar_cases c with ⟨e, he, hu, hs⟩ | ⟨hc, he⟩ | ⟨hq, hb, hc, he⟩
  · simp [he, readChars, readEscape, hu, hs]
  · rw [he]
    simp [readChars, readEscape_control hc]
  · simp [he, readChars, hq, hb, hc]

theorem readChars_write (fuel : Nat) (acc cs rest : List Char) (hfuel : cs.length < fuel) :
    readChars fuel acc (cs.flatMap escapeChar ++ '"' :: rest) = .ok (acc.reverse ++ cs, rest) := by
  induction cs generalizing fuel acc with
  | nil =>
    obtain ⟨fuel, rfl⟩ := Nat.exists_eq_succ_of_ne_zero (Nat.ne_zero_of_lt hfuel)
    simp [readChars]
  | cons c cs ih =>
    obtain ⟨fuel, rfl⟩ := Nat.exists_eq_succ_of_ne_zero (Nat.ne_zero_of_lt hfuel)
    rw [List.flatMap_cons, List.append_assoc, readChars_escapeChar,
      ih fuel (c :: acc) (by simpa using hfuel), List.reverse_cons, List.append_assoc,
      List.singleton_append]

theorem length_le_flatMap_escapeChar (cs : List Char) :
    cs.length ≤ (cs.flatMap escapeChar).length := by
  induction cs with
  | nil => exact Nat.zero_le _
  | cons c cs ih =>
    have := List.length_pos_iff.2 (escapeChar_ne_nil c)
    rw [List.flatMap_cons, List.length_append, List.length_cons]
    omega

/-- A written string is read back, up to its closing quote. -/
theorem readString_write (s : String) (rest : List Char) :
    readString (s.toList.flatMap escapeChar ++ '"' :: rest) = .ok (s, rest) := by
  have hlen := length_le_flatMap_escapeChar s.toList
  rw [readString, readChars_write _ _ _ _ (by rw [List.length_append]; omega)]
  simp

end IndexMapping.Json
