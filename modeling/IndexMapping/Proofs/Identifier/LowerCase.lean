import IndexMapping.Proofs.Identifier.Runs

/-! Identifiers in lower case. An identifier without upper-case characters is its own name, and a
name has no upper-case characters either, unless there is one in the lower case of a character. So
naming a name changes nothing. -/

namespace IndexMapping.Identifier

open Text (isUppercase isLowercase lowercase)

variable {afterUnderscore started : Bool} {c : Char} {cs : List Char} {s : Scan}

/-- The characters have no capital that stays one in lower case. -/
def Lowers (cs : List Char) : Prop := ∀ c ∈ cs, ∀ d ∈ lowercase c, isUppercase d = false

theorem lowers_cons : Lowers (c :: cs) ↔ Lowers [c] ∧ Lowers cs := by
  simp [Lowers]

theorem lowers_of_ascii (h : ∀ c ∈ cs, c.val < 0x80) : Lowers cs := by
  intro c hc d hd
  rw [Text.lowercase_of_ascii (h c hc), List.mem_singleton] at hd
  have hall : ∀ n : Fin 0x80, isUppercase (Char.ofNat n).toLower = false := by decide
  simpa [hd] using hall ⟨c.toNat, h c hc⟩

/-! ### Without capitals -/

theorem words_of_lower (h : ∀ c ∈ cs, isUppercase c = false) :
    words ⟨started, none, afterUnderscore⟩ cs = cs := by
  induction cs generalizing started afterUnderscore with
  | nil => rfl
  | cons c cs ih =>
    obtain ⟨hc, hcs⟩ := List.forall_mem_cons.1 h
    rw [words_pass hc, Scan.pass, ih hcs]

theorem snake_of_lower {name : String} (h : ∀ c ∈ name.toList, isUppercase c = false) :
    snake name = name := by
  rw [snake, Scan.initial, words_of_lower h, String.ofList_toList]

/-! ### With capitals -/

/-- The capital that is held back is not one in lower case. -/
def Scan.HoldsLower (s : Scan) : Prop := Lowers (s.held.map Held.char).toList

theorem Scan.HoldsLower.release (h : s.HoldsLower) (beforeCapital : Bool) :
    ∀ d ∈ s.release beforeCapital, isUppercase d = false := by
  intro d hd
  rcases hheld : s.held with _ | held
  · simp [Scan.release, hheld] at hd
  · simp only [Scan.release, hheld, List.mem_append] at hd
    rcases hd with hd | hd
    · have hmark : isUppercase '_' = false := by decide
      split at hd
      · rwa [List.mem_singleton.1 hd]
      · cases hd
    · exact h held.char (by simp [hheld]) d hd

/-- A character reaches the name as it stands only if it is no capital, and in lower case
otherwise. -/
theorem not_upper_of_mem_words (hs : s.HoldsLower) (hcs : Lowers cs) :
    ∀ d ∈ words s cs, isUppercase d = false := by
  induction cs generalizing s with
  | nil =>
    intro d hd
    rcases hheld : s.held with _ | held
    · simp [words, hheld] at hd
    · simp only [words, hheld] at hd
      exact hs held.char (by simp [hheld]) d hd
  | cons c cs ih =>
    obtain ⟨hc, hcs⟩ := lowers_cons.1 hcs
    rw [words]
    split_ifs with hcapital
    · exact List.forall_mem_append.2 ⟨hs.release true, ih hc hcs⟩
    · have hlower : isUppercase c = false := by
        simp only [Scan.isCapital, Bool.or_eq_true, not_or, Bool.not_eq_true] at hcapital
        exact hcapital.1
      have hpass : (Scan.pass c).HoldsLower := by simp [Scan.HoldsLower, Scan.pass, Lowers]
      exact List.forall_mem_append.2
        ⟨hs.release false, List.forall_mem_cons.2 ⟨hlower, ih hpass hcs⟩⟩

theorem not_upper_of_mem_snake {name : String} (h : Lowers name.toList) :
    ∀ d ∈ (snake name).toList, isUppercase d = false := by
  rw [toList_snake]
  exact not_upper_of_mem_words (by simp [Scan.HoldsLower, Scan.initial, Lowers]) h

/-- Without upper-case characters an identifier is its own name. If no character of it has an
upper-case one in lower case, as in ASCII, then the name has none and is its own name. -/
theorem snake_lower_case (name : String) :
    ((∀ c ∈ name.toList, isUppercase c = false) → snake name = name) ∧
      ((∀ c ∈ name.toList, ∀ d ∈ lowercase c, isUppercase d = false) →
        (∀ d ∈ (snake name).toList, isUppercase d = false) ∧
          snake (snake name) = snake name) ∧
      ((∀ c ∈ name.toList, c.val < 0x80) →
        ∀ c ∈ name.toList, ∀ d ∈ lowercase c, isUppercase d = false) := by
  refine ⟨snake_of_lower, ?_, lowers_of_ascii⟩
  intro h
  have hlower := not_upper_of_mem_snake h
  exact ⟨hlower, snake_of_lower hlower⟩

/-- The dotted capital has two characters in lower case, and the title-case letter counts as a
capital behind one. -/
theorem snake_lower_case_beyond_ascii :
    (∀ c ∈ "größe_x2".toList, isUppercase c = false) ∧ snake "größe_x2" = "größe_x2" ∧
      (∀ c ∈ "İdAǅ9x".toList, ∀ d ∈ lowercase c, isUppercase d = false) ∧
      (∀ d ∈ (snake "İdAǅ9x").toList, isUppercase d = false) ∧
      snake (snake "İdAǅ9x") = snake "İdAǅ9x" ∧
      (∀ c ∈ "ID_Field".toList, c.val < 0x80) ∧
      ∀ c ∈ "ID_Field".toList, ∀ d ∈ lowercase c, isUppercase d = false := by
  have hlower : "größe_x2".toList.all (!isUppercase ·) := by decide +kernel
  have hlowers : "İdAǅ9x".toList.all fun c => (lowercase c).all (!isUppercase ·) := by
    decide +kernel
  have hascii : "ID_Field".toList.all (·.val < 0x80) := by decide +kernel
  simp only [List.all_eq_true, Bool.not_eq_true', decide_eq_true_eq] at hlower hlowers hascii
  obtain ⟨hkept, -, -⟩ := snake_lower_case "größe_x2"
  obtain ⟨-, hsettled, -⟩ := snake_lower_case "İdAǅ9x"
  obtain ⟨-, -, hplain⟩ := snake_lower_case "ID_Field"
  exact ⟨hlower, hkept hlower, hlowers, (hsettled hlowers).1, (hsettled hlowers).2, hascii,
    hplain hascii⟩

end IndexMapping.Identifier
