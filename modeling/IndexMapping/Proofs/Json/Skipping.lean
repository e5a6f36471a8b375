import IndexMapping.Proofs.Json.Decoding

/-! Passing over a value. Every text of a plain value is passed over up to its end, however deeply
it nests: the brackets that are open are kept on a stack, and the steps are counted by the length
of the text. So a record reads nothing from an object none of whose members it knows. -/

namespace IndexMapping.Json

namespace Skip

variable {cs rest lead trail t u : List Char} {fuel : Nat} {stack : List Bracket} {v : Json}

/-! ### Scalars -/

theorem string_escapeChar (fuel : Nat) (c : Char) (rest : List Char) :
    string (fuel + 1) (escapeChar c ++ rest) = string fuel rest := by
  rcases escapeChar_cases c with ⟨e, he, hu, hs⟩ | ⟨hc, he⟩ | ⟨hq, hb, hc, he⟩
  · simp [he, string, hu, hs]
  · have hlt : c.toNat < 32 := hc
    rw [he]
    simp [string, readHex_lowHex (Nat.lt_trans hlt (by decide))]
  · simp [he, string, hq, hb, hc]

theorem string_write (fuel : Nat) (cs rest : List Char) (hfuel : cs.length < fuel) :
    string fuel (cs.flatMap escapeChar ++ '"' :: rest) = .ok ((), rest) := by
  induction cs generalizing fuel with
  | nil =>
    obtain ⟨fuel, rfl⟩ := Nat.exists_eq_succ_of_ne_zero (Nat.ne_zero_of_lt hfuel)
    simp [string]
  | cons c cs ih =>
    obtain ⟨fuel, rfl⟩ := Nat.exists_eq_succ_of_ne_zero (Nat.ne_zero_of_lt hfuel)
    rw [List.flatMap_cons, List.append_assoc, string_escapeChar, ih fuel (by simpa using hfuel)]

/-- A written string is passed over, up to its closing quote. -/
theorem string_text (s : String) (rest : List Char) :
    string ((s.toList.flatMap escapeChar ++ '"' :: rest).length + 1)
      (s.toList.flatMap escapeChar ++ '"' :: rest) = .ok ((), rest) := by
  have hlen := length_le_flatMap_escapeChar s.toList
  exact string_write _ s.toList rest (by rw [List.length_append]; omega)

theorem afterWhole_of_endsNumber (hr : EndsNumber rest) : afterWhole rest = .ok ((), rest) := by
  cases rest with
  | nil => rfl
  | cons c rest =>
    obtain ⟨-, hpoint, hexp⟩ := hr c rfl
    simp [afterWhole, afterDigits, hpoint, hexp]

theorem number_digitsOf (hr : EndsNumber rest) (n : Nat) :
    number (Decimal.digitsOf n ++ rest) = .ok ((), rest) := by
  rcases Nat.eq_zero_or_pos n with rfl | hpos
  · rw [Decimal.digitsOf, Nat.toDigits_zero, List.singleton_append]
    have hafter := afterWhole_of_endsNumber hr
    cases rest with
    | nil => rfl
    | cons c rest => simpa [number, (hr c rfl).1] using hafter
  · have hhead := head_digitsOf hpos
    obtain ⟨d, ds, hcons, hd, hds⟩ := exists_digitsOf_eq_cons n
    have hzero : d ≠ '0' := fun h => hhead (by rw [hcons, h]; rfl)
    have hdrop : (ds ++ rest).dropWhile isDigit = rest := by
      rw [List.dropWhile_append_of_pos hds]
      cases rest with
      | nil => rfl
      | cons c rest => simp [(hr c rfl).1]
    rw [hcons, List.cons_append]
    simp [number, hzero, hd, hdrop, afterWhole_of_endsNumber hr]

theorem start_string (s : String) (rest : List Char) :
    start (writeString s ++ rest) = .ok (none, rest) := by
  have htext : writeString s ++ rest = '"' :: (s.toList.flatMap escapeChar ++ '"' :: rest) := by
    simp [writeString]
  rw [htext, start, skipBlank_cons rfl]
  simp only [string_text]
  rfl

theorem start_digit {c : Char} (hc : isDigit c = true) (cs : List Char) :
    start (c :: cs) = (number (c :: cs)).map fun r => (none, r.2) := by
  have hne : ∀ d, isDigit d = false → c ≠ d := fun d => ne_of_isDigit hc
  rw [start, skipBlank_cons (isBlank_of_isDigit hc)]
  simp [hc, hne 'n' rfl, hne 't' rfl, hne 'f' rfl, hne '-' rfl, hne '"' rfl, hne '[' rfl,
    hne '\x7b' rfl]

theorem start_integer (hr : EndsNumber rest) (n : Int) :
    start (writeInteger n ++ rest) = .ok (none, rest) := by
  have hnumber := number_digitsOf hr n.natAbs
  unfold writeInteger
  split
  · rw [List.cons_append, start, skipBlank_cons rfl]
    simp only [hnumber]
    rfl
  · obtain ⟨d, ds, hcons, hd, -⟩ := exists_digitsOf_eq_cons n.natAbs
    rw [hcons, List.cons_append] at hnumber ⊢
    rw [start_digit hd, hnumber]
    rfl

/-! ### One part of a bracket -/

/-- What is left to do after a value. -/
def proceed (fuel : Nat) (r : Except Failure (Next × List Bracket × List Char)) :
    Except Failure (Unit × List Char) :=
  r >>= fun (next, stack, cs) => run fuel next stack cs

/-- The text is passed over as what comes next, in no more steps than it has characters. -/
def Passes (next : Next) (t : List Char) : Prop :=
  ∃ k ≤ t.length, ∀ fuel stack blanks rest, Blank blanks → EndsNumber rest →
    run (k + fuel) next stack (blanks ++ (t ++ rest)) = proceed fuel (afterValue stack rest)

theorem start_blank {blanks : List Char} (hb : Blank blanks) (cs : List Char) :
    start (blanks ++ cs) = start cs := by
  rw [start, start, skipBlank_append hb]

theorem passes_scalar (hne : t ≠ [])
    (h : ∀ rest, EndsNumber rest → start (t ++ rest) = .ok (none, rest)) :
    Passes .element t := by
  refine ⟨1, List.length_pos_iff.2 hne, fun fuel stack blanks rest hb hr => ?_⟩
  rw [Nat.add_comm, run, start_blank hb, h rest hr]
  rfl

/-- A member is passed over as its value is, after one step for its name. -/
theorem passes_member {colon : List Char} (hc : Blank colon) (name : String)
    (h : Passes .element t) : Passes .name (memberText colon name t) := by
  obtain ⟨k, hk, hrun⟩ := h
  refine ⟨k + 1, ?_, fun fuel stack blanks rest hb hr => ?_⟩
  · simp only [memberText, writeString, List.length_append, List.length_cons]
    omega
  · have hname : ∀ cs, Skip.name (blanks ++ '"' :: (name.toList.flatMap escapeChar ++
        '"' :: ':' :: cs)) = .ok ((), cs) := by
      intro cs
      rw [Skip.name, skipBlank_append_cons hb rfl]
      simp only [string_text, ok_bind, readColon_cons]
    rw [Nat.add_right_comm, memberText_append, run, hname, ok_bind]
    exact hrun fuel stack colon rest hc hr

/-! ### Brackets -/

/-- The text starts with a character that neither is a blank nor closes the bracket. -/
def Opens (b : Bracket) (t : List Char) : Prop :=
  ∃ c cs, t = c :: cs ∧ isBlank c = false ∧ c ≠ b.closing

theorem Bracket.isBlank_closing (b : Bracket) : isBlank b.closing = false := by
  cases b <;> rfl

theorem Bracket.endsNumber_closing (b : Bracket) (rest : List Char) :
    EndsNumber (b.closing :: rest) := by
  cases b <;> exact endsNumber_cons (by simp [closing]) rest

theorem afterValue_closing (b : Bracket) (ht : Blank trail) (rest : List Char) :
    afterValue (b :: stack) (trail ++ b.closing :: rest) = afterValue stack rest := by
  have hcomma : b.closing ≠ ',' := by
    cases b <;> decide
  rw [afterValue, skipBlank_append_cons ht b.isBlank_closing]
  simp [hcomma]

theorem afterValue_comma (b : Bracket) (cs : List Char) :
    afterValue (b :: stack) (',' :: cs) = .ok (b.inside, b :: stack, cs) := by
  rw [afterValue, skipBlank_cons rfl]
  rfl

/-- Parts that are each passed over are passed over one after the other, up to the end of the
bracket. -/
theorem passes_rest (b : Bracket) (hl : Blank lead) (ht : Blank trail) (ts : List (List Char))
    (h : ∀ t ∈ ts, Passes b.inside t) :
    ∃ k ≤ (joined lead false ts).length, ∀ fuel stack rest, EndsNumber rest →
      proceed (k + fuel) (afterValue (b :: stack)
        (joined lead false ts ++ (trail ++ b.closing :: rest))) =
        proceed fuel (afterValue stack rest) := by
  induction ts with
  | nil =>
    refine ⟨0, Nat.zero_le _, fun fuel stack rest hr => ?_⟩
    rw [joined, List.nil_append, afterValue_closing b ht, Nat.zero_add]
  | cons t ts ih =>
    obtain ⟨hpass, hts⟩ := List.forall_mem_cons.1 h
    obtain ⟨k, hk, hrun⟩ := hpass
    obtain ⟨l, hl', hrest⟩ := ih hts
    refine ⟨k + l, ?_, fun fuel stack rest hr => ?_⟩
    · simp only [joined, List.length_append]
      omega
    · have hend : EndsNumber (trail ++ b.closing :: rest) :=
        endsNumber_blank ht (b.endsNumber_closing rest)
      have htext : joined lead false (t :: ts) ++ (trail ++ b.closing :: rest) =
          ',' :: (lead ++ (t ++ (joined lead false ts ++ (trail ++ b.closing :: rest)))) := by
        simp [joined]
      rw [htext, afterValue_comma, ← hrest fuel stack rest hr, Nat.add_assoc,
        ← hrun (l + fuel) (b :: stack) lead _ hl (endsNumber_joined hend ts)]
      rfl

theorem passes_bracket {b : Bracket} {opening : Char}
    (hopen : ∀ cs, start (opening :: cs) = .ok (some b, cs)) (hl : Blank lead) (ht : Blank trail)
    (ts : List (List Char)) (h : ∀ t ∈ ts, Passes b.inside t) (hopens : ∀ t ∈ ts, Opens b t) :
    Passes .element (opening :: joined lead true ts ++ trail ++ [b.closing]) := by
  have hstep : ∀ fuel stack blanks cs, Blank blanks →
      run (fuel + 1) .element stack (blanks ++ opening :: cs) =
        proceed fuel (afterOpening b stack cs) := by
    intro fuel stack blanks cs hb
    rw [run, start_blank hb, hopen]
    rfl
  cases ts with
  | nil =>
    refine ⟨1, by simp, fun fuel stack blanks rest hb hr => ?_⟩
    have htext : opening :: joined lead true [] ++ trail ++ [b.closing] ++ rest =
        opening :: (trail ++ b.closing :: rest) := by
      simp [joined]
    rw [htext, Nat.add_comm, hstep fuel stack blanks _ hb, afterOpening,
      skipBlank_append_cons ht b.isBlank_closing]
    simp
  | cons t ts =>
    obtain ⟨⟨k, hk, hrun⟩, hts⟩ := List.forall_mem_cons.1 h
    obtain ⟨l, hl', hrest⟩ := passes_rest b hl ht ts hts
    obtain ⟨c, cs, rfl, hc, hclosing⟩ := hopens t List.mem_cons_self
    refine ⟨k + l + 1, ?_, fun fuel stack blanks rest hb hr => ?_⟩
    · simp only [joined, List.length_append, List.length_cons] at hk ⊢
      omega
    · have hend : EndsNumber (trail ++ b.closing :: rest) :=
        endsNumber_blank ht (b.endsNumber_closing rest)
      have htext : opening :: joined lead true ((c :: cs) :: ts) ++ trail ++ [b.closing] ++ rest =
          opening :: (lead ++ c :: (cs ++ (joined lead false ts ++
            (trail ++ b.closing :: rest)))) := by
        simp [joined]
      have hmore : EndsNumber (joined lead false ts ++ (trail ++ b.closing :: rest)) :=
        endsNumber_joined hend ts
      have hfirst := hrun (l + fuel) (b :: stack) [] _ blank_nil hmore
      rw [htext, Nat.add_right_comm, hstep _ stack blanks _ hb, afterOpening,
        skipBlank_append_cons hl hc, ← hrest fuel stack rest hr, ← hfirst, Nat.add_assoc]
      simp only [if_neg hclosing]
      rfl

/-! ### Values -/

theorem opens_member (colon : List Char) (name : String) (t : List Char) :
    Opens .object (memberText colon name t) :=
  ⟨'"', _, rfl, rfl, by decide⟩

/-- Every text of a plain value is passed over. -/
theorem passes_of_written (h : Written v t) (hv : Plain v) : Passes .element t := by
  induction h with
  | null => exact passes_scalar (by simp) fun _ _ => rfl
  | bool b => cases b <;> exact passes_scalar (by simp [writeBool]) fun _ _ => rfl
  | number n =>
    cases hv with
    | @integer n lower upper =>
      obtain ⟨c, cs, hcons, -⟩ := starts_integer n
      exact passes_scalar (t := writeInteger n) (by simp [hcons]) fun _ hr => start_integer hr n
  | string s => exact passes_scalar (by simp [writeString]) fun rest _ => start_string s rest
  | array lead trail items hl ht h ih =>
    cases hv with
    | array hv =>
      rw [List.forall_mem_map] at hv
      refine passes_bracket (b := .list) (fun _ => rfl) hl ht _ ?_ ?_
      · exact List.forall_mem_map.2 fun p hp => ih p hp (hv p hp)
      · exact List.forall_mem_map.2 fun p hp => (h p hp).starts (hv p hp)
  | object lead colon trail members hl hc ht h ih =>
    cases hv with
    | object hnames hv =>
      rw [List.forall_mem_map] at hv
      refine passes_bracket (b := .object) (fun _ => rfl) hl ht _ ?_ ?_
      · exact List.forall_mem_map.2 fun m hm => passes_member hc m.1.1 (ih m hm (hv m hm))
      · exact List.forall_mem_map.2 fun m _ => opens_member colon m.1.1 m.2

/-- Passing over a value leaves what follows it. -/
theorem value_of_written (h : Written v t) (hv : Plain v) {blanks : List Char} (hb : Blank blanks)
    (hr : EndsNumber rest) : value (blanks ++ (t ++ rest)) = .ok ((), rest) := by
  obtain ⟨k, hk, hrun⟩ := passes_of_written h hv
  obtain ⟨fuel, hfuel⟩ : ∃ fuel, 2 * (blanks ++ (t ++ rest)).length + 2 = k + (fuel + 1) := by
    refine ⟨2 * (blanks ++ (t ++ rest)).length + 1 - k, ?_⟩
    simp only [List.length_append]
    omega
  rw [value, hfuel, hrun (fuel + 1) [] blanks rest hb hr]
  rfl

end Skip

/-! ### Records -/

namespace Record

variable {σ α : Type} {r : Record σ α} {lead colon trail rest : List Char} {budget fuel : Nat}
  {first : Bool} {name : String} {s : σ} {x : α} {ms : List (String × Json)} {cs : List Char}

theorem readObject_unknown {t : List Char} {v : Json} (hf : r.field? name = none)
    (h : nextName first cs =
      .ok (some (), name.toList.flatMap escapeChar ++ '"' :: ':' :: (colon ++ (t ++ rest))))
    (hc : Blank colon) (ht : Written v t) (hv : Plain v) (hr : EndsNumber rest) :
    r.readObject budget (fuel + 1) first s cs = r.readObject budget fuel false s rest := by
  rw [readObject, h, ok_bind]
  simp only [readString_write, ok_bind, hf, readColon_cons, Skip.value_of_written ht hv hc hr]

/-- Members of unknown names leave the state as it is. -/
theorem readObject_unknowns (hl : Blank lead) (hc : Blank colon) (ht : Blank trail)
    (members : List ((String × Json) × List Char)) (hw : ∀ m ∈ members, Written m.1.2 m.2)
    (hv : ∀ m ∈ members, Plain m.1.2) (hf : ∀ m ∈ members, r.field? m.1.1 = none)
    (hfuel : members.length < fuel) (rest : List Char) :
    r.readObject budget fuel first s
        (joined lead first (members.map fun m => memberText colon m.1.1 m.2) ++
          (trail ++ '\x7d' :: rest)) =
      .ok (s, '\x7d' :: rest) := by
  induction members generalizing fuel first with
  | nil =>
    obtain ⟨fuel, rfl⟩ := Nat.exists_eq_succ_of_ne_zero (Nat.ne_zero_of_lt hfuel)
    exact readObject_close (nextName_close ht first rest)
  | cons m members ih =>
    obtain ⟨fuel, rfl⟩ := Nat.exists_eq_succ_of_ne_zero (Nat.ne_zero_of_lt hfuel)
    obtain ⟨⟨name, v⟩, t⟩ := m
    obtain ⟨hw, hws⟩ := List.forall_mem_cons.1 hw
    obtain ⟨hv, hvs⟩ := List.forall_mem_cons.1 hv
    obtain ⟨hf, hfs⟩ := List.forall_mem_cons.1 hf
    have hend : EndsNumber (trail ++ '\x7d' :: rest) :=
      endsNumber_blank ht (endsNumber_cons (by simp) rest)
    rw [List.map_cons, joined, List.append_assoc, List.append_assoc, memberText_append,
      readObject_unknown hf (nextName_separated hl first _) hc hw hv (endsNumber_joined hend _)]
    exact ih hws hvs hfs (by simpa using hfuel)

theorem ofText_unknown (h : ∀ m ∈ ms, r.field? m.1 = none) (hv : Plain (.object ms))
    (hx : r.complete r.empty = .ok x) (l : Layout ms) (rest : List Char) :
    r.decoder.ofText (budget + 1) ('\x7b' :: l.text rest) = .ok (x, rest) := by
  have hmembers : ∀ m ∈ l.members, m.1 ∈ ms := fun m hm =>
    l.map_members ▸ List.mem_map_of_mem hm
  have hread : r.readObject budget ((l.text rest).length + 1) true r.empty (l.text rest) =
      .ok (r.empty, '\x7d' :: rest) :=
    readObject_unknowns l.blank_lead l.blank_colon l.blank_trail l.members l.written
      (fun m hm => hv.of_mem (hmembers m hm)) (fun m hm => h _ (hmembers m hm)) (l.length_lt rest)
      rest
  simp only [decoder, skipBlank_cons (c := '\x7b') rfl, hread, ok_bind, finish, hx]
  rfl

/-- From an object that has no member of a known name, of whatever depth it is, a record is made
in which no field is set. -/
theorem parse_unknown {t : List Char} (ht : Written (.object ms) t) (hv : Plain (.object ms))
    (h : ∀ m ∈ ms, r.field? m.1 = none) (hx : r.complete r.empty = .ok x) :
    r.decoder.parse (String.ofList t) = .ok x := by
  obtain ⟨l, hl⟩ := ht.exists_layout
  have hwhole : r.decoder.ofText depthLimit t = .ok (x, []) := by
    rw [← List.append_nil t, hl []]
    exact ofText_unknown h hv hx l []
  rw [Decoder.parse, String.toList_ofList, readWhole, hwhole]
  rfl

end Record

end IndexMapping.Json
