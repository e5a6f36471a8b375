import IndexMapping.Proofs.Identifier.Runs

/-! The words of an identifier. Among letters, a word starts at a capital after a lower-case letter,
and at a capital between a capital and a lower-case letter. The scan writes these words, but it
joins a lone capital at the end to the word before it. An underscore keeps what follows it apart,
and then the last capital of an acronym right behind it starts no word. -/

namespace IndexMapping.Identifier

open Text (isUppercase isLowercase lowercase)

variable {starts : Char → Char → Option Char → Bool} {a c held capital last next : Char}
  {prev : Option Char} {cs others : List Char}

/-! ### Letters of ASCII -/

/-- A letter is a capital or a lower-case letter, and counts as such for the scan. -/
theorem letter_cases (h : c.isAlpha) :
    (c.isUpper = true ∧ c.isLower = false ∧ isUppercase c = true ∧ isLowercase c = false) ∨
      (c.isUpper = false ∧ c.isLower = true ∧ isUppercase c = false ∧ isLowercase c = true) := by
  have hascii := Text.ascii_of_isAlpha h
  rw [Text.isAlpha_eq, Bool.or_eq_true] at h
  rw [← Text.isUppercase_of_ascii hascii, ← Text.isLowercase_of_ascii hascii] at h ⊢
  rcases h with hupper | hlower
  · have hnot := Text.isLowercase_of_isUppercase hupper
    exact .inl ⟨hupper, hnot, hupper, hnot⟩
  · have hnot := Text.isUppercase_of_isLowercase hlower
    exact .inr ⟨hnot, hlower, hnot, hlower⟩

/-! ### Words -/

/-- A word starts at a capital after a lower-case letter, and at a capital between a capital and a
lower-case letter. -/
def startsWord (before c : Char) (after : Option Char) : Bool :=
  c.isUpper && (before.isLower || (before.isUpper && after.any Char.isLower))

/-- The words from `a` on. A new one starts where `starts` says so. -/
def wordsFrom (starts : Char → Char → Option Char → Bool) (a : Char) :
    List Char → List (List Char)
  | [] => [[a]]
  | c :: cs =>
    if starts a c cs.head? then [a] :: wordsFrom starts c cs
    else (wordsFrom starts c cs).modifyHead (a :: ·)

def wordsOf (starts : Char → Char → Option Char → Bool) : List Char → List (List Char)
  | [] => []
  | a :: cs => wordsFrom starts a cs

/-- The words in lower case, joined by underscores. -/
def joined (ws : List (List Char)) : String :=
  "_".intercalate (ws.map fun w => String.ofList (w.map Char.toLower))

/-- The text from after `prev` on in lower case, with an underscore where a word starts. -/
def spaced (starts : Char → Char → Option Char → Bool) (prev : Option Char) :
    List Char → List Char
  | [] => []
  | c :: cs =>
    mark (prev.any fun p => starts p c cs.head?) ++ c.toLower :: spaced starts (some c) cs

theorem exists_wordsFrom (starts : Char → Char → Option Char → Bool) (a : Char) (cs : List Char) :
    ∃ w ws, wordsFrom starts a cs = (a :: w) :: ws := by
  induction cs generalizing a with
  | nil => exact ⟨[], [], rfl⟩
  | cons c cs ih =>
    obtain ⟨w, ws, hws⟩ := ih c
    rw [wordsFrom]
    split_ifs
    · exact ⟨[], _, rfl⟩
    · exact ⟨c :: w, ws, by rw [hws, List.modifyHead_cons]⟩

theorem toList_joined_wordsFrom (a : Char) (cs : List Char) :
    (joined (wordsFrom starts a cs)).toList = a.toLower :: spaced starts (some a) cs := by
  induction cs generalizing a with
  | nil => simp [joined, wordsFrom, spaced]
  | cons c cs ih =>
    have hih := ih c
    obtain ⟨w, ws, hws⟩ := exists_wordsFrom starts c cs
    simp only [joined, String.toList_intercalate, List.map_map] at hih ⊢
    rw [wordsFrom, spaced, Option.any_some]
    split_ifs with hstart
    · rw [hws] at hih ⊢
      rw [List.map_cons, List.map_cons, List.intercalate_cons_cons, ← List.map_cons, hih, mark,
        if_pos hstart]
      simp
    · rw [hws] at hih ⊢
      rw [List.modifyHead_cons, mark, if_neg hstart, List.nil_append, ← hih, List.map_cons,
        List.map_cons]
      simp

theorem toList_joined (cs : List Char) :
    (joined (wordsOf starts cs)).toList = spaced starts none cs := by
  cases cs with
  | nil => rfl
  | cons a cs => exact toList_joined_wordsFrom a cs

/-! ### Runs of capitals are words -/

/-- Words are found on either side of a start, if it does not change where words start before. -/
theorem wordsFrom_append {l r : List Char} (hstart : ∀ p ∈ (a :: l).getLast?, starts p c r.head?)
    (hbefore : ∀ p d, [p, d] <:+ a :: l → starts p d (some c) = starts p d none) :
    wordsFrom starts a (l ++ c :: r) = wordsFrom starts a l ++ wordsFrom starts c r := by
  induction l generalizing a with
  | nil =>
    have hhere : starts a c r.head? := hstart a rfl
    simp only [List.nil_append, wordsFrom, hhere, if_true]
    rfl
  | cons d l ih =>
    have hhead : starts a d (l ++ c :: r).head? = starts a d l.head? := by
      cases l with
      | nil => exact hbefore a d (List.suffix_refl _)
      | cons e l => rfl
    have hrest := ih (a := d) (by simpa using hstart) fun p e hsuffix =>
      hbefore p e (hsuffix.trans (List.suffix_cons a _))
    obtain ⟨w, ws, hws⟩ := exists_wordsFrom starts d l
    rw [List.cons_append, wordsFrom, hhead, hrest, wordsFrom, hws]
    split_ifs <;> rfl

theorem wordsOf_append {l r : List Char} (hstart : ∀ p ∈ l.getLast?, starts p c r.head?)
    (hbefore : ∀ p d, [p, d] <:+ l → starts p d (some c) = starts p d none) :
    wordsOf starts (l ++ c :: r) = wordsOf starts l ++ wordsOf starts (c :: r) := by
  cases l with
  | nil => rfl
  | cons a l => exact wordsFrom_append hstart hbefore

theorem wordsFrom_capitals (ha : a.isUpper) (h : ∀ c ∈ cs, c.isUpper) :
    wordsFrom startsWord a cs = [a :: cs] := by
  induction cs generalizing a with
  | nil => rfl
  | cons c cs ih =>
    obtain ⟨hc, hcs⟩ := List.forall_mem_cons.1 h
    have hafter : cs.head?.any Char.isLower = false := by
      cases cs with
      | nil => rfl
      | cons d cs => simpa using Text.isLower_eq_false_of_isUpper (hcs d List.mem_cons_self)
    have hstart : startsWord a c cs.head? = false := by
      simp [startsWord, Text.isLower_eq_false_of_isUpper ha, hafter]
    rw [wordsFrom, hstart, ih hc hcs]
    rfl

/-- A capital after a lower-case letter starts a word. -/
theorem wordsOf_capital {l : List Char} (hl : ∀ p ∈ l.getLast?, p.isLower) (hc : c.isUpper) :
    wordsOf startsWord (l ++ c :: cs) =
      wordsOf startsWord l ++ wordsOf startsWord (c :: cs) := by
  refine wordsOf_append (fun p hp => by simp [startsWord, hc, hl p hp]) fun p d hsuffix => ?_
  have hd : d.isLower := by
    obtain ⟨front, rfl⟩ := hsuffix
    exact hl d (by simp)
  simp [startsWord, Text.isUpper_eq_false_of_isLower hd]

/-- A run of capitals is a word of its own, except that its last capital belongs to a lower-case
word after it. -/
theorem wordsOf_run {l run r : List Char} (hl : ∀ p ∈ l.getLast?, p.isLower)
    (hrun : ∀ d ∈ run, d.isUpper) (hc : c.isUpper) :
    wordsOf startsWord (l ++ run ++ [c]) = wordsOf startsWord l ++ [run ++ [c]] ∧
      ∀ next, next.isLower → wordsOf startsWord (l ++ run ++ c :: next :: r) =
        wordsOf startsWord l ++ (if run = [] then [] else [run]) ++
          wordsOf startsWord (c :: next :: r) := by
  rw [List.append_assoc]
  cases run with
  | nil =>
    refine ⟨wordsOf_capital hl hc, fun next _ => ?_⟩
    rw [List.append_nil, wordsOf_capital hl hc, if_pos rfl, List.append_nil]
  | cons a run =>
    obtain ⟨ha, hinside⟩ := List.forall_mem_cons.1 hrun
    refine ⟨?_, fun next hnext => ?_⟩
    · have hall : ∀ d ∈ run ++ [c], d.isUpper :=
        List.forall_mem_append.2 ⟨hinside, List.forall_mem_singleton.2 hc⟩
      rw [List.cons_append, wordsOf_capital hl ha, wordsOf, wordsFrom_capitals ha hall]
    · -- the last capital starts a word, and no capital before it does
      have hsplit : wordsFrom startsWord a (run ++ c :: next :: r) =
          wordsFrom startsWord a run ++ wordsFrom startsWord c (next :: r) := by
        refine wordsFrom_append (fun p hp => ?_) fun p d hsuffix => ?_
        · have hp := hrun p (List.mem_of_mem_getLast? hp)
          simp [startsWord, hc, hp, hnext]
        · have hp := hrun p (hsuffix.subset List.mem_cons_self)
          simp [startsWord, Text.isLower_eq_false_of_isUpper hp,
            Text.isLower_eq_false_of_isUpper hc]
      rw [List.append_assoc, List.cons_append, wordsOf_capital hl ha, wordsOf, hsplit,
        wordsFrom_capitals ha hinside, if_neg (List.cons_ne_nil a run), List.append_assoc]
      rfl

/-! ### The scan of letters -/

/-- A word starts anywhere but at the last character. -/
def startsInside (before c : Char) (after : Option Char) : Bool :=
  startsWord before c after && after.isSome

theorem pass_letter (h : c.isAlpha) : Scan.pass c = ⟨true, none, false⟩ := by
  have hne : c ≠ '_' := by
    rintro rfl
    exact absurd h (by decide)
  simp [Scan.pass, hne]

/-- Where the scan writes an underscore before a held letter, a word starts. -/
theorem startsInside_held (hprev : ∀ p ∈ prev, p.isAlpha) (hheld : held.isUpper) :
    (prev.any fun p => startsInside p held (some c)) =
      (prev.isSome && (!prev.any Char.isUpper || c.isLower)) := by
  cases prev with
  | none => rfl
  | some p =>
    rcases letter_cases (hprev p rfl) with ⟨hupper, hlower, -⟩ | ⟨hupper, hlower, -⟩ <;>
      simp [startsInside, startsWord, hheld, hupper, hlower]

theorem startsInside_lower (h : c.isUpper = false) (after : Option Char) :
    (prev.any fun p => startsInside p c after) = false := by
  simp [startsInside, startsWord, h]

/-- Among letters, underscores are written where words start. A held letter is a part of what is
still to be written. -/
theorem words_letters (h : ∀ c ∈ cs, c.isAlpha) :
    (∀ prev : Option Char, (∀ p ∈ prev, p.isAlpha) → prev.any Char.isUpper = false →
      words ⟨prev.isSome, none, false⟩ cs = spaced startsInside prev cs) ∧
    ∀ (prev : Option Char) (held : Char), (∀ p ∈ prev, p.isAlpha) → held.isUpper →
      words ⟨prev.isSome, some ⟨held, prev.any Char.isUpper⟩, false⟩ cs =
        spaced startsInside prev (held :: cs) := by
  have hlowercase : ∀ held : Char, held.isUpper → lowercase held = [held.toLower] :=
    fun held hheld =>
      Text.lowercase_of_ascii (Text.ascii_of_isAlpha (Text.isAlpha_of_isUpper hheld))
  induction cs with
  | nil =>
    refine ⟨fun prev _ _ => rfl, fun prev held _ hheld => ?_⟩
    simp [words, spaced, startsInside, mark, hlowercase held hheld]
  | cons c cs ih =>
    obtain ⟨hc, hcs⟩ := List.forall_mem_cons.1 h
    obtain ⟨ihpass, ihheld⟩ := ih hcs
    -- a lower-case letter is written as it stands, whatever came before it
    have hpass : c.isLower → c.isUpper = false → ∀ prev : Option Char,
        c :: words (.pass c) cs = spaced startsInside prev (c :: cs) := by
      intro hlower hupper prev
      rw [pass_letter hc, spaced, Text.toLower_of_isLower hlower,
        startsInside_lower hupper, mark, if_neg Bool.false_ne_true, List.nil_append]
      exact congrArg (c :: ·) (ihpass (some c) (by simpa using hc) hupper)
    constructor
    · intro prev hprev hany
      rcases letter_cases hc with ⟨hupper, -, hscan, -⟩ | ⟨hupper, hlower, hscan, -⟩
      · have hheld := ihheld prev c hprev hupper
        rw [hany] at hheld
        rw [words_start hscan, hheld]
      · rw [words_pass hscan, hpass hlower hupper prev]
    · intro prev held hprev hheld
      rw [spaced, List.head?_cons, startsInside_held hprev hheld]
      rcases letter_cases hc with ⟨hupper, hlower, -, hscan⟩ | ⟨hupper, hlower, -, hscan⟩
      · have hnext := ihheld (some held) c (by simp [Text.isAlpha_of_isUpper hheld]) hupper
        rw [Option.any_some, hheld] at hnext
        rw [words_hold hscan, hlowercase held hheld, ← hnext]
        simp [hlower]
      · rw [words_close hscan, hlowercase held hheld, hpass hlower hupper (some held)]
        simp [hlower]

theorem spaced_cons (starts : Char → Char → Option Char → Bool) : spaced starts prev (c :: cs) =
    mark (prev.any fun p => starts p c cs.head?) ++ c.toLower :: spaced starts (some c) cs := rfl

/-- The two ways to cut differ where the text ends in a capital after a lower-case letter. -/
theorem spaced_eq_iff : spaced startsInside prev cs = spaced startsWord prev cs ↔
    ¬ ∃ a b, [a, b] <:+ prev.toList ++ cs ∧ a.isLower ∧ b.isUpper := by
  have hshort : ∀ l : List Char, l.length < 2 → ¬ ∃ a b, [a, b] <:+ l ∧ a.isLower ∧ b.isUpper := by
    rintro l hlength ⟨a, b, hsuffix, -⟩
    exact absurd hsuffix.length_le (Nat.not_le_of_lt hlength)
  induction cs generalizing prev with
  | nil => exact iff_of_true rfl (hshort _ (by cases prev <;> simp))
  | cons c cs ih =>
    cases cs with
    | nil =>
      cases prev with
      | none => exact iff_of_true rfl (hshort _ (by simp))
      | some p =>
        have hlone : (∃ a b, [a, b] <:+ [p, c] ∧ a.isLower ∧ b.isUpper) ↔
            startsWord p c none := by
          have hpair : startsWord p c none ↔ p.isLower ∧ c.isUpper := by
            simp [startsWord, and_comm]
          rw [hpair]
          constructor
          · rintro ⟨a, b, hsuffix, hletters⟩
            obtain ⟨rfl, rfl⟩ : a = p ∧ b = c := by simpa [List.suffix_cons_iff] using hsuffix
            exact hletters
          · exact fun hletters => ⟨p, c, List.suffix_refl _, hletters⟩
        rw [Option.toList_some, List.singleton_append, hlone]
        cases hstarts : startsWord p c none <;>
          simp [spaced, startsInside, mark, hstarts]
    | cons d cs =>
      have hsuffix : ∀ a b, [a, b] <:+ prev.toList ++ c :: d :: cs ↔ [a, b] <:+ c :: d :: cs := by
        intro a b
        cases prev with
        | none => rfl
        | some p => simp [List.suffix_cons_iff]
      have hhere : (fun p => startsInside p c (d :: cs).head?) =
          fun p => startsWord p c (d :: cs).head? := by
        funext p
        simp [startsInside]
      simp only [hsuffix]
      rw [spaced_cons startsInside, hhere, spaced_cons startsWord, List.append_cancel_left_eq,
        List.cons.injEq]
      simpa using @ih (some c)

/-- The name of an identifier of letters is made of its words, but no word starts at the last
letter. So it is made of the words alone just when the identifier does not end in a lower-case
letter and a lone capital. Runs of capitals are words of their own, except that the last capital
belongs to a lower-case word after it. -/
theorem snake_letters (name : String) (h : ∀ c ∈ name.toList, c.isAlpha) :
    snake name = joined (wordsOf startsInside name.toList) ∧
      (snake name = joined (wordsOf startsWord name.toList) ↔
        ¬ ∃ a b, [a, b] <:+ name.toList ∧ a.isLower ∧ b.isUpper) ∧
      ∀ l run c, (∀ p ∈ l.getLast?, p.isLower) → (∀ d ∈ run, d.isUpper) → c.isUpper →
        (name.toList = l ++ run ++ [c] →
          wordsOf startsWord name.toList = wordsOf startsWord l ++ [run ++ [c]]) ∧
        ∀ next r, next.isLower → name.toList = l ++ run ++ c :: next :: r →
          wordsOf startsWord name.toList =
            wordsOf startsWord l ++ (if run = [] then [] else [run]) ++
              wordsOf startsWord (c :: next :: r) := by
  have hspaced : (snake name).toList = spaced startsInside none name.toList := by
    rw [toList_snake]
    exact (words_letters h).1 none (by simp) rfl
  refine ⟨?_, ?_, fun l run c hl hrun hc => ⟨fun hname => ?_, fun next r hnext hname => ?_⟩⟩
  · rw [← String.toList_inj, hspaced, toList_joined]
  · rw [← String.toList_inj, hspaced, toList_joined, spaced_eq_iff]
    rfl
  · rw [hname]
    exact (wordsOf_run (r := []) hl hrun hc).1
  · rw [hname]
    exact (wordsOf_run hl hrun hc).2 next hnext

/-- A lone capital at the end is joined to the word before it. -/
theorem snake_lone :
    (∀ c ∈ "UserI".toList, c.isAlpha) ∧ snake "UserI" = "useri" ∧
      joined (wordsOf startsWord "UserI".toList) = "user_i" :=
  ⟨List.all_eq_true.1 (by decide), by decide, by decide⟩

theorem snake_letters_response :
    (∀ c ∈ "GetHTTPResponse".toList, c.isAlpha) ∧
      snake "GetHTTPResponse" = joined (wordsOf startsWord "GetHTTPResponse".toList) ∧
      (∀ c ∈ "FieldX".toList, c.isAlpha) ∧
      snake "FieldX" ≠ joined (wordsOf startsWord "FieldX".toList) := by
  have hresponse : ∀ c ∈ "GetHTTPResponse".toList, c.isAlpha := List.all_eq_true.1 (by decide)
  have hfield : ∀ c ∈ "FieldX".toList, c.isAlpha := List.all_eq_true.1 (by decide)
  refine ⟨hresponse, (snake_letters _ hresponse).2.1.2 ?_, hfield, fun heq => ?_⟩
  · rintro ⟨a, b, ⟨front, hname⟩, -, hb⟩
    have hlast : b = 'e' := by
      have hget := congrArg List.getLast? hname
      simpa using hget
    subst hlast
    exact absurd hb (by decide)
  · exact (snake_letters _ hfield).2.1.1 heq ⟨'d', 'X', by decide, by decide, by decide⟩

/-! ### An underscore between two identifiers -/

/-- An identifier that starts with a run of more than one character and a lower-case one. -/
def StartsWithAcronym (cs : List Char) : Prop :=
  ∃ capital others last next rest, cs = capital :: (others ++ last :: next :: rest) ∧
    Run capital (others ++ [last]) ∧ isLowercase next

theorem words_after_underscore (h : ¬ StartsWithAcronym cs) :
    words (.pass '_') cs = words .initial cs := by
  cases cs using run_induction with
  | nil => rfl
  | pass c cs hc => rw [Scan.pass, Scan.initial, words_pass hc, words_pass hc]
  | ending capital others hrun =>
    rw [Scan.pass, Scan.initial, words_end hrun, words_end hrun]
    rfl
  | lone capital next rest hcapital hnext =>
    rw [Scan.pass, Scan.initial, words_lone hcapital hnext, words_lone hcapital hnext]
    rfl
  | acronym capital others last next rest hrun hnext =>
    exact absurd ⟨capital, others, last, next, rest, rfl, hrun, hnext⟩ h

/-- After an underscore the last capital of a first run starts no word of its own. -/
theorem words_acronym_after_underscore (hrun : Run capital (others ++ [last]))
    (hnext : isLowercase next) (rest : List Char) :
    ∃ ending, words .initial (capital :: (others ++ last :: next :: rest)) =
        lowered (capital :: others) ++ '_' :: ending ∧
      words (.pass '_') (capital :: (others ++ last :: next :: rest)) =
        lowered (capital :: others) ++ ending := by
  refine ⟨lowered [last] ++ next :: words (.pass next) rest, ?_, ?_⟩
  · rw [Scan.initial, words_acronym hrun hnext]
    simp [mark]
  · rw [Scan.pass, words_acronym hrun hnext]
    simp [mark]

theorem words_join (h : isLowercase c) (l r : List Char) :
    words .initial (l ++ c :: '_' :: r) =
      words .initial (l ++ [c]) ++ '_' :: words (.pass '_') r := by
  have hunderscore : isUppercase '_' = false := by decide
  rw [words_append_lower h, Scan.pass, words_pass hunderscore]

theorem toList_snake_join {x y : String} (hlast : x.toList.getLast? = some c)
    (hlower : isLowercase c) :
    (snake (x ++ "_" ++ y)).toList = (snake x).toList ++ '_' :: words (.pass '_') y.toList := by
  obtain ⟨front, hx⟩ : ∃ front, x.toList = front ++ [c] := List.getLast?_eq_some_iff.1 hlast
  rw [toList_snake, toList_snake, hx, ← words_join hlower]
  simp [hx]

/-- Behind an identifier that ends in a lower-case character, an underscore separates what follows
it just when that does not start with an acronym before a lower-case character. If it does, the
underscore before the last capital of the acronym is missing, and nothing else. -/
theorem snake_underscore_iff (x y : String) (c : Char) (hlast : x.toList.getLast? = some c)
    (hlower : isLowercase c) :
    (snake (x ++ "_" ++ y) = snake x ++ "_" ++ snake y ↔ ¬ StartsWithAcronym y.toList) ∧
      ∀ capital others last next rest, y.toList = capital :: (others ++ last :: next :: rest) →
        Run capital (others ++ [last]) → isLowercase next →
        ∃ ending, snake y = String.ofList (lowered (capital :: others)) ++ "_" ++ ending ∧
          snake (x ++ "_" ++ y) =
            snake x ++ "_" ++ String.ofList (lowered (capital :: others)) ++ ending := by
  have hjoin := toList_snake_join (y := y) hlast hlower
  have hacronym : ∀ capital others last next rest,
      y.toList = capital :: (others ++ last :: next :: rest) → Run capital (others ++ [last]) →
      isLowercase next → ∃ ending,
        snake y = String.ofList (lowered (capital :: others)) ++ "_" ++ ending ∧
          snake (x ++ "_" ++ y) =
            snake x ++ "_" ++ String.ofList (lowered (capital :: others)) ++ ending := by
    intro capital others last next rest hy hrun hnext
    obtain ⟨ending, hinitial, hafter⟩ := words_acronym_after_underscore hrun hnext rest
    refine ⟨String.ofList ending, String.toList_inj.1 ?_, String.toList_inj.1 ?_⟩
    · rw [toList_snake, hy, hinitial]
      simp
    · rw [hjoin, hy, hafter]
      simp
  refine ⟨⟨fun heq => ?_, fun hnot => ?_⟩, hacronym⟩
  · rintro ⟨capital, others, last, next, rest, hy, hrun, hnext⟩
    obtain ⟨ending, hinitial, hafter⟩ := hacronym capital others last next rest hy hrun hnext
    rw [hinitial, hafter] at heq
    have hlength := congrArg String.length heq
    simp only [String.length_append] at hlength
    have hone : "_".length = 1 := rfl
    omega
  · rw [← String.toList_inj, hjoin, words_after_underscore hnot, ← toList_snake]
    simp

/-- The acronym behind the underscore is not kept apart from the word after it. -/
theorem snake_underscore_joined :
    (∀ c ∈ ("get" ++ "HTTPServer").toList, c.isAlpha) ∧ "get".toList.getLast? = some 't' ∧
      't'.isLower ∧ "HTTPServer" ≠ "" ∧
      snake ("get" ++ "_" ++ "HTTPServer") ≠ snake "get" ++ "_" ++ snake "HTTPServer" :=
  ⟨List.all_eq_true.1 (by decide), by decide, by decide, by decide, by decide⟩

theorem snake_underscore_iff_path :
    "user".toList.getLast? = some 'r' ∧ isLowercase 'r' ∧
      StartsWithAcronym "URLPath".toList ∧
      snake ("user" ++ "_" ++ "URLPath") ≠ snake "user" ++ "_" ++ snake "URLPath" ∧
      ¬ StartsWithAcronym "PathURL".toList := by
  have hlast : "user".toList.getLast? = some 'r' := by decide
  have hlower : isLowercase 'r' := by decide
  have hrun : Run 'U' (['R', 'L'] ++ ['P']) := by decide
  have hstarts : StartsWithAcronym "URLPath".toList :=
    ⟨'U', ['R', 'L'], 'P', 'a', ['t', 'h'], by decide, hrun, by decide⟩
  refine ⟨hlast, hlower, hstarts, fun heq => ?_, ?_⟩
  · exact (snake_underscore_iff "user" "URLPath" 'r' hlast hlower).1.1 heq hstarts
  · exact (snake_underscore_iff "user" "PathURL" 'r' hlast hlower).1.1 (by decide)

end IndexMapping.Identifier
