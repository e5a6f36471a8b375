import IndexMapping.Proofs.Identifier.Runs
import Mathlib.Data.List.Chain
import Mathlib.Tactic.SplitIfs

/-! Underscores that an identifier has already. One that comes after a capital counts as a capital
itself, and so does the character after it unless that is a lower-case one. At the end of such a
run the scan may write an underscore beside it. All other underscores are never doubled. -/

namespace IndexMapping.Identifier

open Text (isUppercase isLowercase lowercase)

variable {started afterUnderscore : Bool} {c capital last next : Char} {prev : Option Char}
  {cs l r xs others rest : List Char}

/-! ### Underscores side by side -/

/-- No two underscores stand side by side. -/
def Undoubled (cs : List Char) : Prop := cs.IsChain fun c d => c ≠ '_' ∨ d ≠ '_'

instance (cs : List Char) : Decidable (Undoubled cs) :=
  inferInstanceAs (Decidable (cs.IsChain fun c d => c ≠ '_' ∨ d ≠ '_'))

/-- What has no underscores keeps its sides apart. -/
theorem undoubled_between (hne : xs ≠ []) (hxs : '_' ∉ xs) :
    Undoubled (l ++ (xs ++ r)) ↔ Undoubled l ∧ Undoubled r := by
  have hother : ∀ c ∈ xs, c ≠ '_' := fun c hc heq => hxs (heq ▸ hc)
  have hinside : Undoubled xs :=
    List.Pairwise.isChain (List.pairwise_of_forall_mem_list fun c hc _ _ => .inl (hother c hc))
  have hleft : ∀ c ∈ l.getLast?, ∀ d ∈ (xs ++ r).head?, c ≠ '_' ∨ d ≠ '_' := by
    intro c _ d hd
    rw [List.head?_append_of_ne_nil _ hne] at hd
    exact .inr (hother d (List.mem_of_mem_head? hd))
  have hright : ∀ c ∈ xs.getLast?, ∀ d ∈ r.head?, c ≠ '_' ∨ d ≠ '_' := fun c hc _ _ =>
    .inl (hother c (List.mem_of_mem_getLast? hc))
  simp only [Undoubled] at hinside ⊢
  rw [List.isChain_append, List.isChain_append]
  constructor
  · rintro ⟨hl, ⟨-, hr, -⟩, -⟩
    exact ⟨hl, hr⟩
  · rintro ⟨hl, hr⟩
    exact ⟨hl, ⟨hinside, hr, hright⟩, hleft⟩

theorem undoubled_between_char (hc : c ≠ '_') :
    Undoubled (l ++ c :: r) ↔ Undoubled l ∧ Undoubled r :=
  undoubled_between (List.cons_ne_nil c []) (by simpa using hc.symm)

theorem undoubled_split (hc : c ≠ '_') :
    Undoubled (l ++ c :: r) ↔ Undoubled l ∧ Undoubled (c :: r) := by
  have hcons : Undoubled (c :: r) ↔ Undoubled r := by
    simpa [Undoubled] using undoubled_between_char (l := []) (r := r) hc
  rw [undoubled_between_char hc, hcons]

/-- Lower case neither adds nor removes underscores. -/
theorem undoubled_lowered :
    Undoubled (l ++ (lowered cs ++ r)) ↔ Undoubled (l ++ (cs ++ r)) := by
  induction cs generalizing l with
  | nil => rfl
  | cons c cs ih =>
    rw [lowered, List.flatMap_cons, List.append_assoc]
    by_cases hc : c = '_'
    · subst hc
      have hlower : lowercase '_' = ['_'] := by decide
      rw [hlower]
      simpa [lowered] using ih (l := l ++ ['_'])
    · have hlower : '_' ∉ lowercase c := fun h => hc (Text.underscore_mem_lowercase_iff.1 h)
      rw [undoubled_between (Text.lowercase_ne_nil c) hlower, List.cons_append,
        undoubled_between_char hc]
      exact and_congr_right' (ih (l := []))

/-! ### Runs at which an underscore is doubled -/

/-- All runs of capitals are over: after each capital comes a lower-case character. -/
def Closed (cs : List Char) : Prop :=
  ∀ c rest, c :: rest <:+ cs → isUppercase c → ∃ d ∈ rest, isLowercase d

theorem Closed.of_append (h : Closed (l ++ r)) : Closed r := fun c rest hsuffix =>
  h c rest (hsuffix.trans (List.suffix_append l r))

theorem Closed.cons (h : Closed cs) (hc : isUppercase c = false) : Closed (c :: cs) := by
  intro d rest hsuffix hd
  rcases List.suffix_cons_iff.1 hsuffix with heq | hsuffix
  · rw [(List.cons.inj heq).1, hc] at hd
    cases hd
  · exact h d rest hsuffix hd

theorem Closed.append (h : Closed (next :: cs)) (hnext : isLowercase next) :
    Closed (l ++ next :: cs) := by
  induction l with
  | nil => exact h
  | cons d l ih =>
    intro c rest hsuffix hc
    rcases List.suffix_cons_iff.1 hsuffix with heq | hsuffix
    · exact ⟨next, by simp [(List.cons.inj heq).2], hnext⟩
    · exact ih c rest hsuffix hc

theorem Run.not_closed (h : Run capital others) : ¬ Closed (l ++ capital :: others) := by
  intro hclosed
  obtain ⟨d, hd, hlower⟩ := hclosed capital others (List.suffix_append _ _) h.capital
  rw [h.others d hd] at hlower
  cases hlower

/-- A run of more than one character with an underscore as one of its last two. A lower-case
character follows it, and there is no underscore right before it. -/
structure DoublesAt (before : List Char) (capital : Char) (others : List Char) (last next : Char) :
    Prop where
  closed : Closed before
  apart : before.getLast? ≠ some '_'
  run : Run capital (others ++ [last])
  next : isLowercase next
  underscore : last = '_' ∨ others.getLast? = some '_'

/-- An identifier with such a run, after a character that is written as it stands. -/
def Doubles (prev : Option Char) (cs : List Char) : Prop :=
  ∃ before capital others last next after,
    cs = before ++ capital :: (others ++ last :: next :: after) ∧
      DoublesAt (prev.toList ++ before) capital others last next

theorem not_doubles_nil : ¬ Doubles prev [] := by
  rintro ⟨before, capital, others, last, next, after, heq, -⟩
  simp at heq

theorem doubles_pass (hprev : ∀ p ∈ prev, isUppercase p = false) (hc : isUppercase c = false) :
    Doubles prev (c :: cs) ↔ Doubles (some c) cs := by
  constructor
  · rintro ⟨before, capital, others, last, next, after, heq, hat⟩
    cases before with
    | nil =>
      rw [(List.cons.inj heq).1, hat.run.capital] at hc
      cases hc
    | cons d before =>
      obtain ⟨rfl, htail⟩ := List.cons.inj heq
      refine ⟨before, capital, others, last, next, after, htail, hat.closed.of_append, ?_, hat.run,
        hat.next, hat.underscore⟩
      simpa using hat.apart
  · rintro ⟨before, capital, others, last, next, after, rfl, hat⟩
    refine ⟨c :: before, capital, others, last, next, after, rfl, ?_, ?_, hat.run, hat.next,
      hat.underscore⟩
    · cases prev with
      | none => exact hat.closed
      | some p => exact hat.closed.cons (hprev p rfl)
    · simpa using hat.apart

theorem not_doubles_ending (h : Run capital others) : ¬ Doubles prev (capital :: others) := by
  rintro ⟨before, c, more, last, next, after, heq, hat⟩
  refine h.next_notMem hat.next ?_
  rw [heq]
  simp

theorem next_unique {others' rest' : List Char} {next' : Char}
    (hothers : ∀ c ∈ others, isLowercase c = false) (hnext : isLowercase next)
    (hothers' : ∀ c ∈ others', isLowercase c = false) (hnext' : isLowercase next')
    (h : others ++ next :: rest = others' ++ next' :: rest') :
    others = others' ∧ next = next' ∧ rest = rest' := by
  have htake : ∀ {others next rest}, (∀ c ∈ others, isLowercase c = false) → isLowercase next →
      (others ++ next :: rest).takeWhile (!isLowercase ·) = others := by
    intro others next rest hothers hnext
    rw [List.takeWhile_append_of_pos (by simpa using hothers)]
    simp [hnext]
  have heq := congrArg (List.takeWhile (!isLowercase ·)) h
  rw [htake hothers hnext, htake hothers' hnext'] at heq
  subst heq
  exact ⟨rfl, List.cons.inj (List.append_cancel_left h)⟩

/-- What stands before a lower-case character does not matter. -/
theorem doublesAt_append {before : List Char} {next' : Char} (hnext : isLowercase next) :
    DoublesAt (l ++ next :: before) capital others last next' ↔
      DoublesAt (next :: before) capital others last next' := by
  have hlast : (l ++ next :: before).getLast? = (next :: before).getLast? :=
    List.getLast?_append_of_ne_nil _ (List.cons_ne_nil next before)
  constructor
  · intro h
    exact ⟨h.closed.of_append, hlast ▸ h.apart, h.run, h.next, h.underscore⟩
  · intro h
    exact ⟨h.closed.append hnext, hlast ▸ h.apart, h.run, h.next, h.underscore⟩

/-- An underscore is doubled at the first run or after it. -/
theorem doubles_run (hrun : Run capital others) (hnext : isLowercase next) :
    Doubles prev (capital :: (others ++ next :: rest)) ↔
      (∃ more last, others = more ++ [last] ∧ DoublesAt prev.toList capital more last next) ∨
        Doubles (some next) rest := by
  have hbefore (before : List Char) : prev.toList ++ capital :: (others ++ next :: before) =
      (prev.toList ++ capital :: others) ++ next :: before := by simp
  constructor
  · rintro ⟨before, capital', more, last, next', after, heq, hat⟩
    cases before with
    | nil =>
      obtain ⟨rfl, htail⟩ := List.cons.inj heq
      have hsplit : others ++ next :: rest = (more ++ [last]) ++ next' :: after := by
        simpa using htail
      obtain ⟨rfl, rfl, -⟩ := next_unique hrun.others hnext hat.run.others hat.next hsplit
      exact .inl ⟨more, last, rfl, by simpa using hat⟩
    | cons d before =>
      obtain ⟨rfl, htail⟩ := List.cons.inj heq
      rcases List.append_eq_append_iff.1 htail with ⟨front, rfl, hfront⟩ | ⟨inner, rfl, -⟩
      · cases front with
        | nil =>
          have hupper := hat.run.capital
          rw [← (List.cons.inj hfront).1, Text.isUppercase_of_isLowercase hnext] at hupper
          cases hupper
        | cons d front =>
          obtain ⟨rfl, hrest⟩ := List.cons.inj hfront
          rw [hbefore, doublesAt_append hnext] at hat
          exact .inr ⟨front, capital', more, last, next', after, hrest, hat⟩
      · exact absurd hat.closed (Run.not_closed ⟨hrun.capital, fun c hc =>
          hrun.others c (List.mem_append_left _ hc)⟩)
  · rintro (⟨more, last, rfl, hat⟩ | ⟨before, capital', more, last, next', after, rfl, hat⟩)
    · exact ⟨[], capital, more, last, next, rest, by simp, by simpa using hat⟩
    · refine ⟨capital :: (others ++ next :: before), capital', more, last, next', after, by simp,
        ?_⟩
      rwa [hbefore, doublesAt_append hnext]

theorem doubles_lone (hcapital : isUppercase capital) (hnext : isLowercase next) :
    Doubles prev (capital :: next :: rest) ↔ Doubles (some next) rest := by
  have hrun : Run capital [] := ⟨hcapital, by simp⟩
  have hiff : Doubles prev (capital :: ([] ++ next :: rest)) ↔ _ := doubles_run hrun hnext
  simpa using hiff

theorem doubles_acronym (hprev : ∀ p ∈ prev, isUppercase p = false)
    (hrun : Run capital (others ++ [last])) (hnext : isLowercase next) :
    Doubles prev (capital :: (others ++ last :: next :: rest)) ↔
      (prev ≠ some '_' ∧ (last = '_' ∨ others.getLast? = some '_')) ∨
        Doubles (some next) rest := by
  have hclosed : Closed prev.toList := by
    have hnil : Closed [] := fun c rest hsuffix => by simp at hsuffix
    cases prev with
    | none => exact hnil
    | some p => exact hnil.cons (hprev p rfl)
  have hlast : prev.toList.getLast? = prev := by
    cases prev <;> rfl
  have happend : others ++ last :: next :: rest = (others ++ [last]) ++ next :: rest := by simp
  rw [happend, doubles_run hrun hnext]
  refine or_congr_left ⟨?_, ?_⟩
  · rintro ⟨more, last', heq, hat⟩
    obtain ⟨rfl, hsingle⟩ := List.append_inj' heq rfl
    obtain rfl := List.singleton_inj.1 hsingle
    exact ⟨hlast ▸ hat.apart, hat.underscore⟩
  · rintro ⟨hne, hunderscore⟩
    exact ⟨others, last, rfl, hclosed, hlast.symm ▸ hne, hrun, hnext, hunderscore⟩

/-! ### What is written -/

theorem ne_underscore_of_isUppercase (h : isUppercase c) : c ≠ '_' := by
  rintro rfl
  exact absurd h (by decide)

theorem ne_underscore_of_isLowercase (h : isLowercase c) : c ≠ '_' := by
  rintro rfl
  exact absurd h (by decide)

/-- The underscore before a run is not doubled. -/
theorem undoubled_run {written : Bool} (hwritten : written → prev ≠ some '_')
    (hcapital : isUppercase capital) :
    Undoubled (prev.toList ++ (mark written ++ (lowered (capital :: others) ++ r))) ↔
      Undoubled (others ++ r) := by
  have hstart : Undoubled (prev.toList ++ mark written) := by
    cases written with
    | false => cases prev <;> simp [Undoubled, mark]
    | true =>
      cases prev with
      | none => simp [Undoubled, mark]
      | some p => simpa [Undoubled, mark] using hwritten rfl
  rw [← List.append_assoc, undoubled_lowered, List.cons_append,
    undoubled_between_char (ne_underscore_of_isUppercase hcapital)]
  exact and_iff_right hstart

/-- The underscore before the last capital of a run is doubled by one beside it. -/
theorem undoubled_last {written : Bool} (h : Undoubled (others ++ [last])) :
    Undoubled (others ++ (mark written ++ [last])) ↔
      ¬ (written ∧ (last = '_' ∨ others.getLast? = some '_')) := by
  cases written with
  | false => simpa [mark] using h
  | true =>
    have hothers : Undoubled others := h.left_of_append
    have hpair : Undoubled ['_', last] ↔ last ≠ '_' := by simp [Undoubled]
    have hsplit : Undoubled (others ++ ['_', last]) ↔
        Undoubled (others ++ ['_']) ∧ Undoubled ['_', last] := List.isChain_split
    have hmark : Undoubled (others ++ ['_']) ↔ others.getLast? ≠ some '_' := by
      rw [Undoubled, List.isChain_append]
      constructor
      · rintro ⟨-, -, hpair⟩ heq
        simpa using hpair '_' heq '_' rfl
      · intro hne
        exact ⟨hothers, List.isChain_singleton '_', fun c hc _ _ => .inl fun heq => hne (heq ▸ hc)⟩
    rw [mark, if_pos rfl, List.singleton_append, hsplit, hmark, hpair]
    tauto

theorem ne_underscore_of_mark {written : Bool} (hafter : afterUnderscore ↔ prev = some '_')
    (h : written && !afterUnderscore) : prev ≠ some '_' := by
  intro heq
  rw [hafter.2 heq] at h
  simp at h

/-- After a character that is written as it stands, no underscores are side by side in what is
written just when none is doubled. -/
theorem undoubled_words_iff (hprev : ∀ p ∈ prev, isUppercase p = false)
    (hafter : afterUnderscore ↔ prev = some '_') (h : Undoubled (prev.toList ++ cs)) :
    Undoubled (prev.toList ++ words ⟨started, none, afterUnderscore⟩ cs) ↔ ¬ Doubles prev cs := by
  induction cs using run_induction generalizing prev started afterUnderscore with
  | nil => exact iff_of_true h not_doubles_nil
  | pass c cs hc ih =>
    obtain ⟨hpair, hcs⟩ := List.isChain_split.1 h
    have hsplit : ∀ r, Undoubled (prev.toList ++ c :: r) ↔ Undoubled (c :: r) := fun r =>
      List.isChain_split.trans (and_iff_right hpair)
    rw [words_pass hc, hsplit, doubles_pass hprev hc]
    exact @ih _ _ (some c) (by simpa using hc) (by simp) hcs
  | ending capital others hrun =>
    have hothers : Undoubled others := h.right_of_append.tail
    have hwritten : (started && !afterUnderscore && !others.isEmpty) → prev ≠ some '_' := by
      rw [Bool.and_right_comm]
      exact ne_underscore_of_mark hafter
    rw [words_end hrun, ← List.append_nil (lowered _), undoubled_run hwritten hrun.capital,
      List.append_nil]
    exact iff_of_true hothers (not_doubles_ending hrun)
  | lone capital next rest hcapital hnext ih =>
    have hrest : Undoubled (next :: rest) := h.right_of_append.tail
    have hih : Undoubled (next :: words (.pass next) rest) ↔ ¬ Doubles (some next) rest :=
      @ih _ _ (some next) (by simpa using Text.isUppercase_of_isLowercase hnext) (by simp) hrest
    rw [words_lone hcapital hnext, List.append_assoc,
      undoubled_run (ne_underscore_of_mark hafter) hcapital, List.nil_append, hih,
      doubles_lone hcapital hnext]
  | acronym capital others last next rest hrun hnext ih =>
    have happend : ∀ rest, others ++ last :: next :: rest = (others ++ [last]) ++ next :: rest := by
      simp
    have hsplit : ∀ l r : List Char,
        Undoubled (l ++ next :: r) ↔ Undoubled l ∧ Undoubled (next :: r) := fun l r =>
      undoubled_split (ne_underscore_of_isLowercase hnext)
    have htail : Undoubled ((others ++ [last]) ++ next :: rest) := by
      rw [← happend]
      exact h.right_of_append.tail
    obtain ⟨hothers, hrest⟩ := (hsplit _ _).1 htail
    have hih : Undoubled (next :: words (.pass next) rest) ↔ ¬ Doubles (some next) rest :=
      @ih _ _ (some next) (by simpa using Text.isUppercase_of_isLowercase hnext) (by simp) hrest
    have hmark : (!afterUnderscore) = true ↔ prev ≠ some '_' := by
      rw [Bool.not_eq_true', ← Bool.not_eq_true, ne_eq, hafter]
    rw [words_acronym hrun hnext]
    simp only [List.append_assoc]
    rw [undoubled_run (ne_underscore_of_mark hafter) hrun.capital, ← List.append_assoc others,
      undoubled_lowered, ← List.append_assoc, hsplit, List.append_assoc, undoubled_last hothers,
      hih, doubles_acronym hprev hrun hnext, hmark, not_or]

/-- An identifier without underscores side by side has none in its name either, unless a run of
capitals with an underscore as one of its last two characters is followed by a lower-case one and
has no underscore right before it. -/
theorem undoubled_snake_iff (name : String) (h : Undoubled name.toList) :
    Undoubled (snake name).toList ↔
      ¬ ∃ before capital others last next after,
        name.toList = before ++ capital :: (others ++ last :: next :: after) ∧
          DoublesAt before capital others last next := by
  rw [toList_snake]
  have hwords : Undoubled ((none : Option Char).toList ++ words .initial name.toList) ↔ _ :=
    undoubled_words_iff (by simp) (by simp) h
  exact hwords

/-- An underscore after a capital counts as a capital. -/
theorem undoubled_doubled : Undoubled "A_b".toList ∧ ¬ Undoubled (snake "A_b").toList := by
  decide

theorem undoubled_snake_iff_acronyms :
    Undoubled "Item_ID".toList ∧
      (¬ ∃ before capital others last next after,
        "Item_ID".toList = before ++ capital :: (others ++ last :: next :: after) ∧
          DoublesAt before capital others last next) ∧
      Undoubled "ID_Field".toList ∧
      ∃ before capital others last next after,
        "ID_Field".toList = before ++ capital :: (others ++ last :: next :: after) ∧
          DoublesAt before capital others last next := by
  have hitem : Undoubled "Item_ID".toList := by decide
  have hfield : Undoubled "ID_Field".toList := by decide
  refine ⟨hitem, (undoubled_snake_iff _ hitem).1 (by decide), hfield, ?_⟩
  have hdoubled : ¬ Undoubled (snake "ID_Field").toList := by decide
  exact not_not.1 fun h => hdoubled ((undoubled_snake_iff _ hfield).2 h)

end IndexMapping.Identifier
