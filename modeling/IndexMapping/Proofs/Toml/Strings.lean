import IndexMapping.Toml.Quoted
import Mathlib.Data.List.Basic
import Mathlib.Tactic.IntervalCases
import Mathlib.Tactic.SplitIfs

/-! TOML strings are read back as they are written, in each of the four styles. A reader takes a
character at a time, but over several lines it looks ahead for the three quotes that end a string;
so the quotes right before a character are kept with what is still to be read. -/

namespace IndexMapping.Toml

variable {multi : Bool} {allowed run longest fuel : Nat} {c quote : Char}
  {acc cs e rest : List Char}

/-! ### Escapes -/

/-- What stands behind a backslash for a character. It does not join two lines. -/
structure Escapes (e : List Char) (c : Char) : Prop where
  read : ∀ rest, readEscape (e ++ rest) = some (c, rest)
  joined : ∀ rest, joinedLine? (e ++ rest) = none

theorem hexDigit?_toUpper : ∀ d < 16, hexDigit? (Nat.digitChar d).toUpper = some d := by decide

theorem readCodePoint_hexUpper {n : Nat} (hn : n < 128) (rest : List Char) :
    readCodePoint 4 (hexUpper n ++ rest) = some (Char.ofNat n, rest) := by
  have h₁ := hexDigit?_toUpper (n / 0x1000 % 16) (Nat.mod_lt _ (by decide))
  have h₂ := hexDigit?_toUpper (n / 0x100 % 16) (Nat.mod_lt _ (by decide))
  have h₃ := hexDigit?_toUpper (n / 0x10 % 16) (Nat.mod_lt _ (by decide))
  have h₄ := hexDigit?_toUpper (n / 1 % 16) (Nat.mod_lt _ (by decide))
  have hdigits : ((hexUpper n ++ rest).take 4).mapM hexDigit? =
      some [n / 0x1000 % 16, n / 0x100 % 16, n / 0x10 % 16, n / 1 % 16] := by
    simp only [hexUpper, List.map_cons, List.map_nil, List.cons_append, List.nil_append,
      List.take_succ_cons, List.take_zero, List.mapM_cons, List.mapM_nil, h₁, h₂, h₃, h₄]
    rfl
  have hsum : [n / 0x1000 % 16, n / 0x100 % 16, n / 0x10 % 16, n / 1 % 16].foldl
      (fun n d => n * 16 + d) 0 = n := by
    simp only [List.foldl_cons, List.foldl_nil]
    omega
  have hvalid : n.isValidChar := .inl (by omega)
  simp only [readCodePoint, hdigits, Option.bind_eq_bind, Option.bind_some, hsum]
  simp [hvalid, hexUpper]

theorem escapes_code (h : needsCode c) : Escapes ('u' :: hexUpper c.toNat) c where
  read rest := by
    have hlt : c.toNat < 128 := by
      simp only [needsCode, Bool.or_eq_true, Bool.and_eq_true, decide_eq_true_eq] at h
      rcases h with ⟨⟨hcontrol, -⟩, -⟩ | rfl
      · exact Nat.lt_of_lt_of_le hcontrol (by decide)
      · decide
    rw [List.cons_append, readEscape, readCodePoint_hexUpper hlt, Char.ofNat_toNat]
  joined rest := rfl

/-- How a character is written: as it is, if it is a quote or ends a line, by an escape, or as it
is because nothing speaks against it. -/
theorem writeBasicChar_cases (multi : Bool) (allowed run : Nat) (c : Char) :
    (c = '"' ∧ run < allowed ∧ writeBasicChar multi allowed run c = (['"'], run + 1)) ∨
      (multi ∧ c = '\n' ∧ writeBasicChar multi allowed run c = (['\n'], 0)) ∨
      (∃ e, Escapes e c ∧ writeBasicChar multi allowed run c = ('\\' :: e, 0)) ∨
      (c ≠ '"' ∧ c ≠ '\\' ∧ c ≠ '\r' ∧ isText c ∧
        writeBasicChar multi allowed run c = ([c], 0)) := by
  unfold writeBasicChar
  split_ifs with hquote hmore hbackspace htab hline hmulti hfeed hreturn hbackslash hcode
  · exact .inr (.inr (.inl ⟨['"'], ⟨fun _ => by rw [hquote]; rfl, fun _ => rfl⟩, rfl⟩))
  · exact .inl ⟨hquote, by omega, rfl⟩
  · exact .inr (.inr (.inl ⟨['b'], ⟨fun _ => by rw [hbackspace]; rfl, fun _ => rfl⟩, rfl⟩))
  · exact .inr (.inr (.inl ⟨['t'], ⟨fun _ => by rw [htab]; rfl, fun _ => rfl⟩, rfl⟩))
  · exact .inr (.inl ⟨hmulti, hline, rfl⟩)
  · exact .inr (.inr (.inl ⟨['n'], ⟨fun _ => by rw [hline]; rfl, fun _ => rfl⟩, rfl⟩))
  · exact .inr (.inr (.inl ⟨['f'], ⟨fun _ => by rw [hfeed]; rfl, fun _ => rfl⟩, rfl⟩))
  · exact .inr (.inr (.inl ⟨['r'], ⟨fun _ => by rw [hreturn]; rfl, fun _ => rfl⟩, rfl⟩))
  · exact .inr (.inr (.inl ⟨['\\'], ⟨fun _ => by rw [hbackslash]; rfl, fun _ => rfl⟩, rfl⟩))
  · exact .inr (.inr (.inl ⟨_, escapes_code hcode, rfl⟩))
  · have htext : isText c := by
      simp only [needsCode, isText] at hcode ⊢
      grind
    exact .inr (.inr (.inr ⟨hquote, hbackslash, hreturn, htext, rfl⟩))

theorem length_le_writeBasicChars :
    cs.length ≤ (writeBasicChars multi allowed run cs).length := by
  induction cs generalizing run with
  | nil => exact Nat.zero_le _
  | cons c cs ih =>
    have hwritten : 0 < (writeBasicChar multi allowed run c).1.length := by
      rcases writeBasicChar_cases multi allowed run c with
        ⟨-, -, h⟩ | ⟨-, -, h⟩ | ⟨e, -, h⟩ | ⟨-, -, -, -, h⟩ <;> simp [h]
    have hrest : cs.length ≤
        (writeBasicChars multi allowed (writeBasicChar multi allowed run c).2 cs).length := ih
    simp only [writeBasicChars, List.length_append, List.length_cons]
    omega

theorem text_of_plain (h : needsCode c = false) : isText c ∨ c = '\n' := by
  simp only [needsCode, isText] at h ⊢
  grind

theorem ne_return_of_plain (h : needsCode c = false) : c ≠ '\r' := by
  rintro rfl
  cases h

/-! ### On one line -/

theorem readBasic_text (hquote : c ≠ '"') (hbackslash : c ≠ '\\') (htext : isText c) :
    readBasic (fuel + 1) acc (c :: cs) = readBasic fuel (c :: acc) cs := by
  simp [readBasic, hquote, hbackslash, htext]

theorem readBasic_escape (h : Escapes e c) :
    readBasic (fuel + 1) acc ('\\' :: (e ++ rest)) = readBasic fuel (c :: acc) rest := by
  simp [readBasic, h.read rest]

theorem readBasic_write (hfuel : cs.length < fuel) :
    readBasic fuel acc (writeBasicChars false 0 0 cs ++ '"' :: rest) =
      some (acc.reverse ++ cs, rest) := by
  obtain ⟨fuel, rfl⟩ := Nat.exists_eq_add_one_of_ne_zero (Nat.ne_zero_of_lt hfuel)
  induction cs generalizing fuel acc with
  | nil => simp [writeBasicChars, readBasic]
  | cons c cs ih =>
    have hfuel : cs.length < fuel := by simpa using hfuel
    obtain ⟨fuel, rfl⟩ := Nat.exists_eq_add_one_of_ne_zero (Nat.ne_zero_of_lt hfuel)
    rcases writeBasicChar_cases false 0 0 c with
      ⟨-, hrun, -⟩ | ⟨hmulti, -⟩ | ⟨e, he, h⟩ | ⟨hquote, hbackslash, -, htext, h⟩
    · cases hrun
    · cases hmulti
    · simp only [writeBasicChars, h, List.cons_append, List.append_assoc]
      rw [readBasic_escape he, ih fuel hfuel]
      simp
    · simp only [writeBasicChars, h, List.cons_append, List.nil_append]
      rw [readBasic_text hquote hbackslash htext, ih fuel hfuel]
      simp

theorem readLiteral_write (h : ∀ c ∈ cs, c ≠ '\x27' ∧ isText c) :
    readLiteral acc (cs ++ '\x27' :: rest) = some (acc.reverse ++ cs, rest) := by
  induction cs generalizing acc with
  | nil => simp [readLiteral]
  | cons c cs ih =>
    obtain ⟨⟨hquote, htext⟩, hcs⟩ := List.forall_mem_cons.1 h
    simp [readLiteral, hquote, htext, ih hcs]

/-! ### Over several lines -/

/-- Up to two quotes before the three that end a string belong to the string. -/
theorem closingQuotes_replicate (hrun : run ≤ 2) (hrest : rest.head? ≠ some quote) :
    closingQuotes quote acc (List.replicate run quote ++ rest) =
      (acc.reverse ++ List.replicate run quote, rest) := by
  have hother : ∀ c r, rest = c :: r → c ≠ quote := by
    rintro c r rfl heq
    exact hrest (by rw [heq, List.head?_cons])
  interval_cases run
  · match rest with
    | [] => simp [closingQuotes]
    | [a] => simp [closingQuotes, hother a [] rfl]
    | a :: b :: r => simp [closingQuotes, hother a (b :: r) rfl]
  · match rest with
    | [] => simp [closingQuotes]
    | a :: r => simp [closingQuotes, hother a r rfl]
  · simp [closingQuotes, List.replicate]

/-- The three quotes that end a string may stand behind two more. -/
theorem replicate_append_three (quote : Char) (run : Nat) (rest : List Char) :
    List.replicate run quote ++ quote :: quote :: quote :: rest =
      quote :: quote :: quote :: (List.replicate run quote ++ rest) := by
  induction run with
  | zero => rfl
  | succ run ih => rw [List.replicate_succ, List.cons_append, ih, List.cons_append]

theorem readMultiBasic_quote (h : ∀ rest, cs ≠ '"' :: '"' :: rest) :
    readMultiBasic (fuel + 1) acc ('"' :: cs) = readMultiBasic fuel ('"' :: acc) cs := by
  have htext : isText '"' := by decide
  rw [readMultiBasic]
  · simp [htext]
  · exact fun rest _ heq => h rest heq
  · intro rest hc
    cases hc

theorem readMultiBasic_text (hquote : c ≠ '"') (hbackslash : c ≠ '\\') (hreturn : c ≠ '\r')
    (h : isText c ∨ c = '\n') :
    readMultiBasic (fuel + 1) acc (c :: cs) = readMultiBasic fuel (c :: acc) cs := by
  rw [readMultiBasic]
  · simp [hbackslash, h]
  · exact fun _ hc => absurd hc hquote
  · exact fun _ hc => absurd hc hreturn

theorem readMultiBasic_escape (h : Escapes e c) :
    readMultiBasic (fuel + 1) acc ('\\' :: (e ++ rest)) = readMultiBasic fuel (c :: acc) rest := by
  rw [readMultiBasic]
  · simp [h.joined rest, h.read rest]
  · intro _ hc
    cases hc
  · intro _ hc
    cases hc

/-- Fewer than three quotes before another character belong to the string, for a reader that takes
a quote that two others do not follow. -/
theorem read_quotes {β : Type} (R : Nat → List Char → List Char → β) (fuel : Nat)
    (hquote : ∀ fuel acc cs, (∀ rest, cs ≠ quote :: quote :: rest) →
      R (fuel + 1) acc (quote :: cs) = R fuel (quote :: acc) cs)
    (hrun : run ≤ 2) (hc : c ≠ quote) :
    R (fuel + run) acc (List.replicate run quote ++ c :: cs) =
      R fuel (List.replicate run quote ++ acc) (c :: cs) := by
  interval_cases run
  · rfl
  · exact hquote _ _ _ fun rest heq => hc (List.cons.inj heq).1
  · refine (hquote _ _ _ fun rest heq => ?_).trans
      (hquote _ _ _ fun rest heq => hc (List.cons.inj heq).1)
    exact hc (List.cons.inj (List.cons.inj heq).2).1

theorem readMultiBasic_quotes (hrun : run ≤ 2) (hc : c ≠ '"') :
    readMultiBasic (fuel + run) acc (List.replicate run '"' ++ c :: cs) =
      readMultiBasic fuel (List.replicate run '"' ++ acc) (c :: cs) :=
  read_quotes readMultiBasic fuel (fun _ _ _ => readMultiBasic_quote) hrun hc

theorem readMultiBasic_end (hrun : run ≤ 2) (hrest : rest.head? ≠ some '"') :
    readMultiBasic (fuel + 1) acc (List.replicate run '"' ++ '"' :: '"' :: '"' :: rest) =
      some (acc.reverse ++ List.replicate run '"', rest) := by
  rw [replicate_append_three, readMultiBasic, closingQuotes_replicate hrun hrest]

/-- The `run` quotes before `cs` are still to be read. -/
theorem readMultiBasic_write (hrun : run ≤ 2) (hrest : rest.head? ≠ some '"')
    (hfuel : run + cs.length < fuel) :
    readMultiBasic fuel acc (List.replicate run '"' ++
        (writeBasicChars true 2 run cs ++ '"' :: '"' :: '"' :: rest)) =
      some (acc.reverse ++ (List.replicate run '"' ++ cs), rest) := by
  induction cs generalizing fuel acc run with
  | nil =>
    obtain ⟨fuel, rfl⟩ := Nat.exists_eq_add_one_of_ne_zero (Nat.ne_zero_of_lt hfuel)
    rw [writeBasicChars, List.nil_append, readMultiBasic_end hrun hrest, List.append_nil]
  | cons c cs ih =>
    rw [List.length_cons] at hfuel
    obtain ⟨fuel, rfl⟩ : ∃ n, fuel = n + 1 + run := ⟨fuel - 1 - run, by omega⟩
    -- after any other character no quotes are left to be read before it
    have hnext : readMultiBasic fuel (c :: (List.replicate run '"' ++ acc))
        (writeBasicChars true 2 0 cs ++ '"' :: '"' :: '"' :: rest) =
          some (acc.reverse ++ (List.replicate run '"' ++ c :: cs), rest) := by
      have hrest : 0 + cs.length < fuel := by omega
      simpa using @ih 0 fuel (c :: (List.replicate run '"' ++ acc)) (Nat.zero_le 2) hrest
    rcases writeBasicChar_cases true 2 run c with
      ⟨rfl, hmore, h⟩ | ⟨-, rfl, h⟩ | ⟨e, he, h⟩ | ⟨hquote, hbackslash, hreturn, htext, h⟩
    · have hquotes := @ih (run + 1) (fuel + 1 + run) acc hmore (by omega)
      simpa [writeBasicChars, h, List.replicate_succ'] using hquotes
    · simp only [writeBasicChars, h, List.cons_append, List.nil_append]
      rw [readMultiBasic_quotes hrun (by decide),
        readMultiBasic_text (by decide) (by decide) (by decide) (.inr rfl), hnext]
    · simp only [writeBasicChars, h, List.cons_append, List.append_assoc]
      rw [readMultiBasic_quotes hrun (by decide), readMultiBasic_escape he, hnext]
    · simp only [writeBasicChars, h, List.cons_append, List.nil_append]
      rw [readMultiBasic_quotes hrun hquote,
        readMultiBasic_text hquote hbackslash hreturn (.inl htext), hnext]

theorem readMultiLiteral_text (hquote : c ≠ '\x27') (hreturn : c ≠ '\r')
    (h : isText c ∨ c = '\n') :
    readMultiLiteral acc (c :: cs) = readMultiLiteral (c :: acc) cs := by
  rw [readMultiLiteral]
  · simp [h]
  · exact fun _ hc => absurd hc hquote
  · exact fun _ hc => absurd hc hreturn

theorem readMultiLiteral_quote (h : ∀ rest, cs ≠ '\x27' :: '\x27' :: rest) :
    readMultiLiteral acc ('\x27' :: cs) = readMultiLiteral ('\x27' :: acc) cs := by
  have htext : isText '\x27' := by decide
  rw [readMultiLiteral]
  · simp [htext]
  · exact fun rest _ heq => h rest heq
  · intro rest hc
    cases hc

theorem readMultiLiteral_quotes (hrun : run ≤ 2) (hc : c ≠ '\x27') :
    readMultiLiteral acc (List.replicate run '\x27' ++ c :: cs) =
      readMultiLiteral (List.replicate run '\x27' ++ acc) (c :: cs) :=
  read_quotes (fun _ => readMultiLiteral) 0 (fun _ _ _ => readMultiLiteral_quote) hrun hc

theorem readMultiLiteral_end (hrun : run ≤ 2) (hrest : rest.head? ≠ some '\x27') :
    readMultiLiteral acc (List.replicate run '\x27' ++ '\x27' :: '\x27' :: '\x27' :: rest) =
      some (acc.reverse ++ List.replicate run '\x27', rest) := by
  rw [replicate_append_three, readMultiLiteral, closingQuotes_replicate hrun hrest]

theorem le_longestRun : max run longest ≤ longestRun quote run longest cs := by
  induction cs generalizing run longest with
  | nil => exact Nat.le_refl _
  | cons c cs ih =>
    unfold longestRun
    split_ifs
    · exact Nat.le_trans (by omega) ih
    · exact Nat.le_trans (by omega) ih

theorem notMem_of_longestRun (h : longestRun quote run longest cs = 0) : quote ∉ cs := by
  induction cs generalizing run longest with
  | nil => exact List.not_mem_nil
  | cons c cs ih =>
    rw [longestRun] at h
    split_ifs at h with hc
    · have hle : max (run + 1) longest ≤ longestRun quote (run + 1) longest cs := le_longestRun
      omega
    · exact fun hmem => (List.mem_cons.1 hmem).elim (fun heq => hc heq.symm) (ih h)

/-- The `run` quotes before `cs` are still to be read, and no run of quotes is longer than two. -/
theorem readMultiLiteral_write (hruns : longestRun '\x27' run longest cs ≤ 2)
    (hcs : ∀ c ∈ cs, needsCode c = false) (hrest : rest.head? ≠ some '\x27') :
    readMultiLiteral acc (List.replicate run '\x27' ++
        (cs ++ '\x27' :: '\x27' :: '\x27' :: rest)) =
      some (acc.reverse ++ (List.replicate run '\x27' ++ cs), rest) := by
  have hrun : run ≤ 2 := by
    have hle : max run longest ≤ longestRun '\x27' run longest cs := le_longestRun
    omega
  induction cs generalizing acc run longest with
  | nil => rw [List.nil_append, readMultiLiteral_end hrun hrest, List.append_nil]
  | cons c cs ih =>
    obtain ⟨hc, hplain⟩ := List.forall_mem_cons.1 hcs
    rw [longestRun] at hruns
    split_ifs at hruns with hquote
    · subst hquote
      have hmore : run + 1 ≤ 2 := by
        have hle : max (run + 1) longest ≤ longestRun '\x27' (run + 1) longest cs :=
          le_longestRun
        omega
      have hquotes := @ih (run + 1) _ acc hruns hplain hmore
      simpa [List.replicate_succ'] using hquotes
    · have hnext := @ih 0 _ (c :: (List.replicate run '\x27' ++ acc)) hruns hplain (Nat.zero_le 2)
      rw [List.cons_append, readMultiLiteral_quotes hrun hquote,
        readMultiLiteral_text hquote (ne_return_of_plain hc) (text_of_plain hc)]
      simpa using hnext

/-! ### In the style that the writer chooses -/

theorem styleOf_literal (h : styleOf cs = .literal) : ∀ c ∈ cs, c ≠ '\x27' ∧ isText c := by
  have hstyle : cs.any needsCode = false ∧ longestRun '\x27' 0 0 cs = 0 ∧
      cs.any (· = '\n') = false := by
    unfold styleOf at h
    grind
  obtain ⟨hplain, hruns, hlines⟩ := hstyle
  intro c hc
  have hplain : needsCode c = false := by simpa using List.any_eq_false.1 hplain c hc
  have hline : c ≠ '\n' := by simpa using List.any_eq_false.1 hlines c hc
  refine ⟨fun hquote => notMem_of_longestRun hruns (hquote ▸ hc), ?_⟩
  exact (text_of_plain hplain).resolve_right hline

theorem styleOf_multiLiteral (h : styleOf cs = .multiLiteral) :
    longestRun '\x27' 0 0 cs ≤ 2 ∧ ∀ c ∈ cs, needsCode c = false := by
  have hstyle : longestRun '\x27' 0 0 cs ≤ 2 ∧ cs.any needsCode = false := by
    unfold styleOf at h
    grind
  exact ⟨hstyle.1, by simpa using hstyle.2⟩

/-- A line break after the opening quotes is there just when the string has one that would count
as such a break otherwise. -/
theorem dropFirstBreak_write {written : List Char}
    (h : cs.any (· = '\n') = false → written.head? ≠ some '\n' ∧ written.head? ≠ some '\r') :
    dropFirstBreak ((if cs.any (· = '\n') then ['\n'] else []) ++ written) = written := by
  split_ifs with hlines
  · rfl
  · obtain ⟨hline, hreturn⟩ := h (Bool.eq_false_iff.2 hlines)
    rw [List.nil_append]
    unfold dropFirstBreak
    split <;> simp_all

theorem head?_writeBasicChars_line : (writeBasicChars false 0 0 cs).head? ≠ some '"' := by
  cases cs with
  | nil => simp [writeBasicChars]
  | cons c cs =>
    rcases writeBasicChar_cases false 0 0 c with
      ⟨-, hmore, -⟩ | ⟨hmulti, -⟩ | ⟨e, -, h⟩ | ⟨hquote, -, -, -, h⟩
    · cases hmore
    · cases hmulti
    · simp [writeBasicChars, h]
    · simp [writeBasicChars, h, hquote]

theorem head?_writeBasicChars_lines (hlines : cs.any (· = '\n') = false) :
    (writeBasicChars true 2 0 cs ++ '"' :: rest).head? ≠ some '\n' ∧
      (writeBasicChars true 2 0 cs ++ '"' :: rest).head? ≠ some '\r' := by
  cases cs with
  | nil => simp [writeBasicChars]
  | cons c cs =>
    have hc : c ≠ '\n' := by simpa using List.any_eq_false.1 hlines c List.mem_cons_self
    rcases writeBasicChar_cases true 2 0 c with
      ⟨-, -, h⟩ | ⟨-, hline, -⟩ | ⟨e, -, h⟩ | ⟨-, -, hreturn, -, h⟩
    · simp [writeBasicChars, h]
    · exact absurd hline hc
    · simp [writeBasicChars, h]
    · simp [writeBasicChars, h, hc, hreturn]

theorem head?_plain_lines (hplain : ∀ c ∈ cs, needsCode c = false)
    (hlines : cs.any (· = '\n') = false) :
    (cs ++ '\x27' :: rest).head? ≠ some '\n' ∧ (cs ++ '\x27' :: rest).head? ≠ some '\r' := by
  cases cs with
  | nil => simp
  | cons c cs =>
    have hc : c ≠ '\n' := by simpa using List.any_eq_false.1 hlines c List.mem_cons_self
    simp [hc, ne_return_of_plain (hplain c List.mem_cons_self)]

theorem readString_one_line (hquote : quote = '"' ∨ quote = '\x27')
    (hrest : ∀ more, cs ≠ quote :: quote :: more) :
    readString (quote :: cs) = readLineString (quote :: cs) := by
  rcases hquote with rfl | rfl
  · rw [readString]
    · intro more heq
      exact hrest more (List.cons.inj heq).2
    · intro more heq
      cases (List.cons.inj heq).1
  · rw [readString]
    · intro more heq
      cases (List.cons.inj heq).1
    · intro more heq
      exact hrest more (List.cons.inj heq).2

theorem readString_basic (hrest : rest.head? ≠ some '"') :
    readString (writeStyled .basic cs ++ rest) = some (String.ofList cs, rest) := by
  have hhead : (writeBasicChars false 0 0 cs).head? ≠ some '"' := head?_writeBasicChars_line
  have hlength : cs.length ≤ (writeBasicChars false 0 0 cs).length := length_le_writeBasicChars
  simp only [writeStyled, List.cons_append, List.append_assoc, List.nil_append]
  rw [readString_one_line (.inl rfl), readLineString, readBasic_write, List.reverse_nil,
    List.nil_append, Option.map_some]
  · simp only [List.length_append]
    omega
  · intro more heq
    cases hwritten : writeBasicChars false 0 0 cs with
    | nil =>
      rw [hwritten, List.nil_append] at heq
      simp [(List.cons.inj heq).2] at hrest
    | cons c written =>
      rw [hwritten] at heq hhead
      simp [(List.cons.inj heq).1] at hhead

theorem readString_literal (hcs : ∀ c ∈ cs, c ≠ '\x27' ∧ isText c)
    (hrest : rest.head? ≠ some '\x27') :
    readString (writeStyled .literal cs ++ rest) = some (String.ofList cs, rest) := by
  simp only [writeStyled, List.cons_append, List.append_assoc, List.nil_append]
  rw [readString_one_line (.inr rfl), readLineString, readLiteral_write hcs, List.reverse_nil,
    List.nil_append, Option.map_some]
  intro more heq
  cases cs with
  | nil =>
    rw [List.nil_append] at heq
    simp [(List.cons.inj heq).2] at hrest
  | cons c cs => exact (hcs c List.mem_cons_self).1 (List.cons.inj heq).1

theorem readString_multiBasic (hrest : rest.head? ≠ some '"') :
    readString (writeStyled .multiBasic cs ++ rest) = some (String.ofList cs, rest) := by
  have hlength : cs.length ≤ (writeBasicChars true 2 0 cs).length := length_le_writeBasicChars
  simp only [writeStyled, List.cons_append, List.append_assoc, List.nil_append]
  rw [readString, dropFirstBreak_write head?_writeBasicChars_lines]
  have hread : ∀ fuel, cs.length < fuel →
      readMultiBasic fuel [] (writeBasicChars true 2 0 cs ++ '"' :: '"' :: '"' :: rest) =
        some (cs, rest) := by
    intro fuel hfuel
    have hfuel : 0 + cs.length < fuel := by omega
    simpa using @readMultiBasic_write 0 fuel [] cs rest (Nat.zero_le 2) hrest hfuel
  rw [hread, Option.map_some]
  simp only [List.length_append]
  omega

theorem readString_multiLiteral (hruns : longestRun '\x27' 0 0 cs ≤ 2)
    (hcs : ∀ c ∈ cs, needsCode c = false) (hrest : rest.head? ≠ some '\x27') :
    readString (writeStyled .multiLiteral cs ++ rest) = some (String.ofList cs, rest) := by
  simp only [writeStyled, List.cons_append, List.append_assoc, List.nil_append]
  rw [readString, dropFirstBreak_write (head?_plain_lines hcs)]
  have hread : readMultiLiteral [] (cs ++ '\x27' :: '\x27' :: '\x27' :: rest) =
      some (cs, rest) := by
    simpa using @readMultiLiteral_write 0 0 [] cs rest hruns hcs hrest
  rw [hread, Option.map_some]

/-- A string is read back as it is written, up to its last quote. -/
theorem readString_writeString (s : String) (hbasic : rest.head? ≠ some '"')
    (hliteral : rest.head? ≠ some '\x27') :
    readString (writeString s ++ rest) = some (s, rest) := by
  have hread : readString (writeString s ++ rest) = some (String.ofList s.toList, rest) := by
    unfold writeString
    cases hstyle : styleOf s.toList with
    | basic => exact readString_basic hbasic
    | literal => exact readString_literal (styleOf_literal hstyle) hliteral
    | multiBasic => exact readString_multiBasic hbasic
    | multiLiteral =>
      obtain ⟨hruns, hplain⟩ := styleOf_multiLiteral hstyle
      exact readString_multiLiteral hruns hplain hliteral
  rwa [String.ofList_toList] at hread

end IndexMapping.Toml
