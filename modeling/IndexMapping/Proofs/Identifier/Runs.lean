import IndexMapping.Identifier
import IndexMapping.Proofs.Text.Case
import Mathlib.Data.List.TakeWhile

/-! Runs of capitals. Outside of runs an identifier is written as it stands. A run is an upper-case
character with all that follows it up to a lower-case one. It is written in lower case, and
underscores may come before its first character and before its last one. -/

namespace IndexMapping.Identifier

open Text (isUppercase isLowercase lowercase)

variable {started afterUnderscore inRun : Bool} {c held capital last next : Char}
  {cs others rest : List Char} {s : Scan}

/-- An upper-case character and what counts as capitals after it. -/
structure Run (capital : Char) (others : List Char) : Prop where
  capital : isUppercase capital
  others : ∀ c ∈ others, isLowercase c = false

instance (capital : Char) (others : List Char) : Decidable (Run capital others) :=
  decidable_of_iff (isUppercase capital ∧ others.all (!isLowercase ·)) <| by
    simp only [List.all_eq_true, Bool.not_eq_true']
    exact ⟨fun h => ⟨h.1, h.2⟩, fun h => ⟨h.capital, h.others⟩⟩

def lowered (cs : List Char) : List Char := cs.flatMap lowercase

/-- An underscore, if one is written. -/
def mark (written : Bool) : List Char := if written then ['_'] else []

theorem Run.next_notMem (h : Run capital others) (hnext : isLowercase next) :
    next ∉ capital :: others := by
  intro hmem
  have hupper := Text.isUppercase_of_isLowercase hnext
  rcases List.mem_cons.1 hmem with rfl | hmem
  · rw [h.capital] at hupper
    cases hupper
  · rw [h.others next hmem] at hnext
    cases hnext

theorem toList_snake (name : String) : (snake name).toList = words .initial name.toList :=
  String.toList_ofList

/-! ### One character -/

theorem words_pass (h : isUppercase c = false) :
    words ⟨started, none, afterUnderscore⟩ (c :: cs) = c :: words (.pass c) cs := by
  simp [words, Scan.isCapital, Scan.release, h]

theorem words_start (h : isUppercase c) :
    words ⟨started, none, afterUnderscore⟩ (c :: cs) =
      words ⟨started, some ⟨c, false⟩, afterUnderscore⟩ cs := by
  simp [words, Scan.isCapital, Scan.release, Scan.hold, h]

theorem words_hold (h : isLowercase c = false) :
    words ⟨started, some ⟨held, inRun⟩, afterUnderscore⟩ (c :: cs) =
      mark (started && !inRun && !afterUnderscore) ++ lowercase held ++
        words ⟨true, some ⟨c, true⟩, afterUnderscore⟩ cs := by
  simp [words, Scan.isCapital, Scan.release, Scan.hold, mark, h]

theorem words_close (h : isLowercase c) :
    words ⟨started, some ⟨held, inRun⟩, afterUnderscore⟩ (c :: cs) =
      mark (started && !afterUnderscore) ++ lowercase held ++ c :: words (.pass c) cs := by
  simp [words, Scan.isCapital, Scan.release, mark, h, Text.isUppercase_of_isLowercase h]

theorem words_append_lower (h : isLowercase c) :
    words s (cs ++ c :: rest) = words s (cs ++ [c]) ++ words (.pass c) rest := by
  have hpass : ∀ s : Scan, s.isCapital c = false := fun s => by
    simp [Scan.isCapital, h, Text.isUppercase_of_isLowercase h]
  induction cs generalizing s with
  | nil => simp [words, hpass, Scan.pass]
  | cons d cs ih =>
    rw [List.cons_append, List.cons_append, words, words]
    split_ifs
    · rw [ih, List.append_assoc]
    · rw [ih, List.append_assoc, List.cons_append]

/-! ### One run -/

theorem words_inside (h : ∀ c ∈ others, isLowercase c = false) (hlast : isLowercase last = false) :
    words ⟨true, some ⟨held, true⟩, afterUnderscore⟩ (others ++ last :: rest) =
      lowered (held :: others) ++ words ⟨true, some ⟨last, true⟩, afterUnderscore⟩ rest := by
  induction others generalizing held with
  | nil => simp [words_hold hlast, mark, lowered]
  | cons c others ih =>
    obtain ⟨hc, hothers⟩ := List.forall_mem_cons.1 h
    rw [List.cons_append, words_hold hc, ih hothers]
    simp [mark, lowered]

/-- A run of more than one character, up to its last one. -/
theorem words_run (h : Run capital (others ++ [last])) :
    words ⟨started, none, afterUnderscore⟩ (capital :: (others ++ last :: rest)) =
      mark (started && !afterUnderscore) ++ lowered (capital :: others) ++
        words ⟨true, some ⟨last, true⟩, afterUnderscore⟩ rest := by
  obtain ⟨hothers, hlast⟩ := List.forall_mem_append.1 h.others
  have hlast := hlast last List.mem_cons_self
  rw [words_start h.capital]
  cases others with
  | nil => simp [words_hold hlast, lowered]
  | cons c others =>
    obtain ⟨hc, hothers⟩ := List.forall_mem_cons.1 hothers
    rw [List.cons_append, words_hold hc, words_inside hothers hlast]
    simp [lowered]

/-- A lone capital starts a word. -/
theorem words_lone (hcapital : isUppercase capital) (hnext : isLowercase next) :
    words ⟨started, none, afterUnderscore⟩ (capital :: next :: rest) =
      mark (started && !afterUnderscore) ++ lowered [capital] ++
        next :: words (.pass next) rest := by
  rw [words_start hcapital, words_close hnext]
  simp [lowered]

/-- The last capital of a longer run starts a word of its own. -/
theorem words_acronym (h : Run capital (others ++ [last])) (hnext : isLowercase next) :
    words ⟨started, none, afterUnderscore⟩ (capital :: (others ++ last :: next :: rest)) =
      mark (started && !afterUnderscore) ++ lowered (capital :: others) ++
        mark (!afterUnderscore) ++ lowered [last] ++ next :: words (.pass next) rest := by
  rw [words_run h, words_close hnext]
  simp [lowered]

/-- At the end a run is one word, and a lone capital belongs to the word before it. -/
theorem words_end (h : Run capital others) :
    words ⟨started, none, afterUnderscore⟩ (capital :: others) =
      mark (started && !afterUnderscore && !others.isEmpty) ++ lowered (capital :: others) := by
  rcases List.eq_nil_or_concat others with rfl | ⟨others, last, rfl⟩
  · rw [words_start h.capital]
    simp [words, mark, lowered]
  · rw [List.concat_eq_append] at h ⊢
    have hmore : (others ++ [last]).isEmpty = false := by simp
    rw [words_run h, hmore]
    simp [words, lowered]

/-! ### All runs -/

/-- Identifiers run by run: a character outside of runs, a run at the end, a lone capital before a
lower-case character, or a longer run before one. -/
theorem run_induction {P : List Char → Prop} (nil : P [])
    (pass : ∀ c cs, isUppercase c = false → P cs → P (c :: cs))
    (ending : ∀ capital others, Run capital others → P (capital :: others))
    (lone : ∀ capital next rest, isUppercase capital → isLowercase next → P rest →
      P (capital :: next :: rest))
    (acronym : ∀ capital others last next rest, Run capital (others ++ [last]) →
      isLowercase next → P rest → P (capital :: (others ++ last :: next :: rest)))
    (cs : List Char) : P cs := by
  induction hlength : cs.length using Nat.strong_induction_on generalizing cs with
  | _ n ih =>
    subst hlength
    cases cs with
    | nil => exact nil
    | cons c cs =>
      cases hc : isUppercase c with
      | false => exact pass c cs hc (ih _ (Nat.lt_succ_self _) cs rfl)
      | true =>
        -- the run goes up to the first lower-case character
        have hsplit := List.takeWhile_append_dropWhile (p := fun c => !isLowercase c) (l := cs)
        have hothers : ∀ d ∈ cs.takeWhile (!isLowercase ·), isLowercase d = false := by
          intro d hd
          simpa using List.mem_takeWhile_imp hd
        generalize cs.takeWhile (!isLowercase ·) = others at hsplit hothers
        cases hrest : cs.dropWhile (!isLowercase ·) with
        | nil =>
          rw [hrest, List.append_nil] at hsplit
          exact ending c cs ⟨hc, hsplit ▸ hothers⟩
        | cons next rest =>
          have hnext : isLowercase next := by
            have hhead := List.head_dropWhile_not (!isLowercase ·) (l := cs) (by simp [hrest])
            simpa [hrest] using hhead
          rw [hrest] at hsplit
          have hrest := ih rest.length (by simp [← hsplit]; omega) rest rfl
          rcases List.eq_nil_or_concat others with rfl | ⟨others, last, rfl⟩
          · exact hsplit ▸ lone c next rest hc hnext hrest
          · rw [List.concat_eq_append] at hothers hsplit
            rw [← hsplit, List.append_assoc, List.singleton_append]
            exact acronym c others last next rest ⟨hc, hothers⟩ hnext hrest

end IndexMapping.Identifier
