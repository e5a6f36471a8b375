import IndexMapping.Proofs.Json.Numbers
import IndexMapping.Proofs.Json.Strings
import IndexMapping.Proofs.Json.Written

/-! Reading a text of a value. A plain value is read back from each of its texts, unless it nests
deeper than brackets may be open: then the reader stops at a bracket and says so. -/

namespace IndexMapping.Json

variable {α β : Type} {x : α} {y : β} {rest cs : List Char} {p q : Prop}

/-- The outcome of a reader that fails only where brackets nest too deeply: if all fits it gives
`x` and leaves `rest`. -/
structure Reads (r : Except Failure (α × List Char)) (x : α) (rest : List Char) (fits : Prop) :
    Prop where
  ok : fits → r = .ok (x, rest)
  tooDeep : ¬ fits → ∃ f, r = .error f ∧ f.cause = .tooDeep

namespace Reads

variable {r : Except Failure (α × List Char)}

theorem of_eq (h : r = .ok (x, rest)) (hp : p) : Reads r x rest p :=
  ⟨fun _ => h, fun hn => absurd hp hn⟩

theorem of_iff (h : Reads r x rest p) (hpq : p ↔ q) : Reads r x rest q := by
  rwa [propext hpq] at h

theorem bind {k : α × List Char → Except Failure (β × List Char)} {rest' : List Char}
    (h : Reads r x rest p) (hk : Reads (k (x, rest)) y rest' q) :
    Reads (r >>= k) y rest' (p ∧ q) := by
  by_cases hp : p
  · rw [h.ok hp, ok_bind]
    exact hk.of_iff (by simp [hp])
  · obtain ⟨f, hf, hcause⟩ := h.tooDeep hp
    rw [hf, error_bind]
    exact ⟨fun hpq => absurd hpq.1 hp, fun _ => ⟨f, rfl, hcause⟩⟩

end Reads

/-! ### Blanks and separators -/

theorem skipBlank_append {b : List Char} (hb : Blank b) (cs : List Char) :
    skipBlank (b ++ cs) = skipBlank cs := List.dropWhile_append_of_pos hb

theorem skipBlank_cons {c : Char} (hc : isBlank c = false) (cs : List Char) :
    skipBlank (c :: cs) = c :: cs := by
  rw [skipBlank, List.dropWhile_cons_of_neg (by simp [hc])]

theorem skipBlank_append_cons {b : List Char} {c : Char} (hb : Blank b) (hc : isBlank c = false)
    (cs : List Char) : skipBlank (b ++ c :: cs) = c :: cs := by
  rw [skipBlank_append hb, skipBlank_cons hc]

/-- The text starts with a character that neither is a blank nor closes a list. -/
def Starts (t : List Char) : Prop := ∃ c u, t = c :: u ∧ isBlank c = false ∧ c ≠ ']'

theorem nextElement_separated {lead t : List Char} (hl : Blank lead) (ht : Starts t)
    (first : Bool) (rest : List Char) :
    nextElement first ((if first then [] else [',']) ++ lead ++ t ++ rest) =
      .ok (some (), t ++ rest) := by
  obtain ⟨c, u, rfl, hblank, hclose⟩ := ht
  cases first with
  | true => simp [nextElement, skipBlank_append_cons hl hblank]
  | false =>
    have hcomma : isBlank ',' = false := by decide
    simp [nextElement, skipBlank_cons hcomma, skipBlank_append_cons hl hblank, hclose]

theorem nextElement_close {trail : List Char} (ht : Blank trail) (first : Bool)
    (rest : List Char) : nextElement first (trail ++ ']' :: rest) = .ok (none, ']' :: rest) := by
  rw [nextElement, skipBlank_append_cons ht rfl]
  rfl

theorem nextName_separated {lead : List Char} (hl : Blank lead) (first : Bool)
    (rest : List Char) :
    nextName first ((if first then [] else [',']) ++ lead ++ '"' :: rest) =
      .ok (some (), rest) := by
  have hquote : isBlank '"' = false := by decide
  cases first with
  | true => simp [nextName, skipBlank_append_cons hl hquote]
  | false =>
    have hcomma : isBlank ',' = false := by decide
    simp [nextName, skipBlank_cons hcomma, skipBlank_append_cons hl hquote]

theorem nextName_close {trail : List Char} (ht : Blank trail) (first : Bool)
    (rest : List Char) :
    nextName first (trail ++ '\x7d' :: rest) = .ok (none, '\x7d' :: rest) := by
  rw [nextName, skipBlank_append_cons ht rfl]
  rfl

theorem readColon_cons (cs : List Char) : readColon (':' :: cs) = .ok ((), cs) := rfl

theorem endsNumber_cons {c : Char} (hc : isBlank c = true ∨ c = ',' ∨ c = ']' ∨ c = '\x7d')
    (cs : List Char) : EndsNumber (c :: cs) := by
  rintro _ ⟨⟩
  simp only [isBlank, Bool.or_eq_true, decide_eq_true_eq] at hc
  rcases hc with (((rfl | rfl) | rfl) | rfl) | rfl | rfl | rfl <;> decide

theorem endsNumber_blank {b : List Char} (hb : Blank b) (h : EndsNumber rest) :
    EndsNumber (b ++ rest) := by
  cases b with
  | nil => exact h
  | cons c b => exact endsNumber_cons (.inl (hb c List.mem_cons_self)) _

/-- After a part of a bracket comes another one or the end of the bracket. -/
theorem endsNumber_joined {lead : List Char} (h : EndsNumber rest) (ts : List (List Char)) :
    EndsNumber (joined lead false ts ++ rest) := by
  cases ts with
  | nil => exact h
  | cons t ts => exact endsNumber_cons (.inr (.inl rfl)) _

theorem length_le_joined (lead : List Char) (first : Bool) (ts : List (List Char)) :
    ts.length ≤ (joined lead first ts).length + 1 := by
  have hnext : ∀ ts, ts.length ≤ (joined lead false ts).length := by
    intro ts
    induction ts with
    | nil => exact Nat.zero_le _
    | cons t ts ih =>
      simp only [joined, List.length_append, List.length_cons, Bool.false_eq_true, if_false]
      omega
  cases ts with
  | nil => exact Nat.zero_le _
  | cons t ts =>
    have := hnext ts
    simp only [joined, List.length_append, List.length_cons]
    omega

/-! ### Lists -/

variable {lead trail : List Char} {P : α → Prop}

theorem readElements_step {element : Read α} {fuel : Nat} {acc : List α} {t : List Char}
    (h : nextElement acc.isEmpty cs = .ok (some (), t)) :
    readElements element (fuel + 1) acc cs =
      element t >>= fun r => readElements element fuel (r.1 :: acc) r.2 := by
  rw [readElements, h]
  rfl

theorem readElements_close {element : Read α} {fuel : Nat} {acc : List α} {t : List Char}
    (h : nextElement acc.isEmpty cs = .ok (none, t)) :
    readElements element (fuel + 1) acc cs = .ok (acc.reverse, t.drop 1) := by
  rw [readElements, h]
  rfl

/-- Elements that are each read from their texts are read from the texts joined. -/
theorem readElements_joined (hl : Blank lead) (ht : Blank trail) (element : Read α)
    (items : List (α × List Char)) (hstarts : ∀ p ∈ items, Starts p.2)
    (hread : ∀ p ∈ items, ∀ rest, EndsNumber rest →
      Reads (element (p.2 ++ rest)) p.1 rest (P p.1))
    (fuel : Nat) (hfuel : items.length < fuel) (acc : List α) (rest : List Char) :
    Reads (readElements element fuel acc
        (joined lead acc.isEmpty (items.map (·.2)) ++ (trail ++ ']' :: rest)))
      (acc.reverse ++ items.map (·.1)) rest (∀ x ∈ items.map (·.1), P x) := by
  induction items generalizing fuel acc with
  | nil =>
    obtain ⟨fuel, rfl⟩ := Nat.exists_eq_succ_of_ne_zero (Nat.ne_zero_of_lt hfuel)
    refine .of_eq ?_ (by simp)
    rw [List.map_nil, List.map_nil, List.append_nil]
    exact readElements_close (nextElement_close ht _ rest)
  | cons p items ih =>
    obtain ⟨fuel, rfl⟩ := Nat.exists_eq_succ_of_ne_zero (Nat.ne_zero_of_lt hfuel)
    obtain ⟨hp, hitems⟩ := List.forall_mem_cons.1 hread
    obtain ⟨hps, hstarts⟩ := List.forall_mem_cons.1 hstarts
    have hend : EndsNumber (trail ++ ']' :: rest) :=
      endsNumber_blank ht (endsNumber_cons (by simp) rest)
    have hnext := ih hstarts hitems fuel (by simpa using hfuel) (p.1 :: acc)
    rw [List.map_cons, joined, List.append_assoc,
      readElements_step (nextElement_separated hl hps acc.isEmpty _)]
    have h := (hp _ (endsNumber_joined hend _)).bind
      (k := fun r => readElements element fuel (r.1 :: acc) r.2) hnext
    simpa using h

/-! ### Objects -/

theorem memberText_append (colon : List Char) (name : String) (t rest : List Char) :
    memberText colon name t ++ rest =
      '"' :: (name.toList.flatMap escapeChar ++ '"' :: ':' :: (colon ++ (t ++ rest))) := by
  simp [memberText, writeString]

theorem readMembers_step {value : Read α} {fuel : Nat} {acc : List (String × α)} {name : String}
    {t : List Char}
    (h : nextName acc.isEmpty cs =
      .ok (some (), name.toList.flatMap escapeChar ++ '"' :: ':' :: t)) :
    readMembers value (fuel + 1) acc cs =
      value t >>= fun r => readMembers value fuel (insertMember name r.1 acc) r.2 := by
  rw [readMembers, h, ok_bind]
  simp only [readString_write, readColon_cons, ok_bind]

theorem readMembers_close {value : Read α} {fuel : Nat} {acc : List (String × α)} {t : List Char}
    (h : nextName acc.isEmpty cs = .ok (none, t)) :
    readMembers value (fuel + 1) acc cs = .ok (acc, t.drop 1) := by
  rw [readMembers, h]
  rfl

/-- Members under distinct names whose values are each read from their texts are read, in their
order, from the texts joined. -/
theorem readMembers_joined {colon : List Char} (hl : Blank lead) (ht : Blank trail)
    (value : Read α) (members : List ((String × α) × List Char))
    (hread : ∀ m ∈ members, ∀ rest, EndsNumber rest →
      Reads (value (colon ++ (m.2 ++ rest))) m.1.2 rest (P m.1.2))
    (fuel : Nat) (hfuel : members.length < fuel) (acc : List (String × α))
    (hnames : ((acc ++ members.map (·.1)).map (·.1)).Nodup) (rest : List Char) :
    Reads (readMembers value fuel acc
        (joined lead acc.isEmpty (members.map fun m => memberText colon m.1.1 m.2) ++
          (trail ++ '\x7d' :: rest)))
      (acc ++ members.map (·.1)) rest (∀ m ∈ members.map (·.1), P m.2) := by
  induction members generalizing fuel acc with
  | nil =>
    obtain ⟨fuel, rfl⟩ := Nat.exists_eq_succ_of_ne_zero (Nat.ne_zero_of_lt hfuel)
    refine .of_eq ?_ (by simp)
    rw [List.map_nil, List.map_nil, List.append_nil]
    exact readMembers_close (nextName_close ht _ rest)
  | cons m members ih =>
    obtain ⟨fuel, rfl⟩ := Nat.exists_eq_succ_of_ne_zero (Nat.ne_zero_of_lt hfuel)
    obtain ⟨hm, hmembers⟩ := List.forall_mem_cons.1 hread
    obtain ⟨⟨name, x⟩, t⟩ := m
    have hfresh : name ∉ acc.map (·.1) := by
      rw [List.map_append, List.nodup_append] at hnames
      exact fun h => hnames.2.2 name h name (by simp) rfl
    have hend : EndsNumber (trail ++ '\x7d' :: rest) :=
      endsNumber_blank ht (endsNumber_cons (by simp) rest)
    have hnext := ih hmembers fuel (by simpa using hfuel) (insertMember name x acc)
      (by simpa [insertMember_of_notMem hfresh] using hnames)
    have hmore : (insertMember name x acc).isEmpty = false := by
      simp [insertMember_of_notMem hfresh]
    rw [hmore] at hnext
    rw [List.map_cons, joined, List.append_assoc, List.append_assoc, memberText_append,
      readMembers_step (nextName_separated hl acc.isEmpty _)]
    have h := (hm _ (endsNumber_joined hend _)).bind
      (k := fun r => readMembers value fuel (insertMember name r.1 acc) r.2) hnext
    simpa [insertMember_of_notMem hfresh] using h

/-! ### Values -/

variable {budget : Nat} {v : Json} {t : List Char}

theorem readValue_blank {b : List Char} (hb : Blank b) (cs : List Char) :
    readValue budget (b ++ cs) = readValue budget cs := by
  rw [readValue.eq_def, readValue.eq_def budget cs, skipBlank_append hb]

theorem ne_of_isDigit {c d : Char} (hc : isDigit c = true) (hd : isDigit d = false) : c ≠ d := by
  rintro rfl
  rw [hc] at hd
  cases hd

theorem isBlank_of_isDigit {c : Char} (hc : isDigit c = true) : isBlank c = false := by
  have hne : ∀ d, isDigit d = false → c ≠ d := fun d => ne_of_isDigit hc
  simp [isBlank, hne ' ' rfl, hne '\n' rfl, hne '\t' rfl, hne '\r' rfl]

theorem readValue_digit {c : Char} (hc : isDigit c = true) (cs : List Char) :
    readValue budget (c :: cs) =
      readNumber false (c :: cs) >>= fun r => .ok (.number r.1, r.2) := by
  have hne : ∀ d, isDigit d = false → c ≠ d := fun d => ne_of_isDigit hc
  rw [readValue.eq_def, skipBlank_cons (isBlank_of_isDigit hc)]
  simp [hc, hne 'n' rfl, hne 't' rfl, hne 'f' rfl, hne '-' rfl, hne '"' rfl, hne '[' rfl,
    hne '\x7b' rfl]

theorem readValue_array (cs : List Char) :
    readValue (budget + 1) ('[' :: cs) =
      readElements (readValue budget) (cs.length + 1) [] cs >>= fun r => .ok (.array r.1, r.2) := by
  rw [readValue.eq_def]
  rfl

theorem readValue_object (cs : List Char) :
    readValue (budget + 1) ('\x7b' :: cs) =
      readMembers (readValue budget) (cs.length + 1) [] cs >>= fun r => .ok (.object r.1, r.2) := by
  rw [readValue.eq_def]
  rfl

theorem readValue_string (s : String) (rest : List Char) :
    readValue budget (writeString s ++ rest) = .ok (.string s, rest) := by
  have htext : writeString s ++ rest = '"' :: (s.toList.flatMap escapeChar ++ '"' :: rest) := by
    simp [writeString]
  rw [htext, readValue.eq_def, skipBlank_cons rfl]
  simp only [readString_write, ok_bind]

theorem readValue_integer {n : Int} (lower : Decimal.minSigned ≤ n)
    (upper : n ≤ Decimal.maxUnsigned) (hr : EndsNumber rest) :
    readValue budget (writeInteger n ++ rest) = .ok (.number (.integer n), rest) := by
  have hn : n.natAbs ≤ maxSignificand := by
    simp only [maxSignificand, Decimal.minSigned, Decimal.maxUnsigned] at lower upper ⊢
    omega
  unfold writeInteger
  split
  next hneg =>
    rw [List.cons_append, readValue.eq_def, skipBlank_cons rfl]
    simp only [readNumber_digitsOf hr hn, ok_bind, wholeNumber_neg hneg lower]
  next hpos =>
    have habs : (n.natAbs : Int) = n := by omega
    have hread := readNumber_digitsOf hr hn false
    obtain ⟨d, ds, hcons, hd, -⟩ := exists_digitsOf_eq_cons n.natAbs
    rw [hcons, List.cons_append] at hread ⊢
    rw [readValue_digit hd, hread, ok_bind]
    simp [wholeNumber, habs]

theorem starts_integer (n : Int) : Starts (writeInteger n) := by
  unfold writeInteger
  split
  · exact ⟨'-', _, rfl, rfl, by decide⟩
  · obtain ⟨d, ds, hcons, hd, -⟩ := exists_digitsOf_eq_cons n.natAbs
    exact ⟨d, ds, hcons, isBlank_of_isDigit hd, ne_of_isDigit hd rfl⟩

theorem Written.starts (h : Written v t) (hv : Plain v) : Starts t := by
  cases h with
  | null => exact ⟨'n', _, rfl, rfl, by decide⟩
  | bool b => cases b <;> exact ⟨_, _, rfl, rfl, by decide⟩
  | number n =>
    cases hv
    exact starts_integer _
  | string s => exact ⟨'"', _, rfl, rfl, by decide⟩
  | array => exact ⟨'[', _, rfl, rfl, by decide⟩
  | object => exact ⟨'\x7b', _, rfl, rfl, by decide⟩

/-! ### Brackets of values -/

theorem reads_array (hl : Blank lead) (ht : Blank trail) (items : List (Json × List Char))
    (hstarts : ∀ p ∈ items, Starts p.2)
    (hread : ∀ p ∈ items, ∀ budget rest, EndsNumber rest →
      Reads (readValue budget (p.2 ++ rest)) p.1 rest (p.1.depth ≤ budget))
    (budget : Nat) (rest : List Char) :
    Reads (readValue budget ('[' :: (joined lead true (items.map (·.2)) ++ (trail ++ ']' :: rest))))
      (array (items.map (·.1))) rest ((array (items.map (·.1))).depth ≤ budget) := by
  cases budget with
  | zero =>
    refine ⟨fun hfits => absurd hfits (by simp [depth]), fun _ => ?_⟩
    rw [readValue.eq_def]
    exact ⟨_, rfl, rfl⟩
  | succ budget =>
    -- one step for each element and one for the end
    have hfuel := length_le_joined lead true (items.map (·.2))
    have helements := readElements_joined (P := fun x => x.depth ≤ budget) hl ht
      (readValue budget) items hstarts (fun p hp => hread p hp budget)
      ((joined lead true (items.map (·.2)) ++ (trail ++ ']' :: rest)).length + 1)
      (by simp only [List.length_append, List.length_cons, List.length_map] at hfuel ⊢; omega)
      [] rest
    rw [readValue_array]
    refine (helements.bind (k := fun r => .ok (Json.array r.1, r.2)) (.of_eq rfl trivial)).of_iff ?_
    rw [and_true, depth_array_le_iff]

theorem reads_object {colon : List Char} (hl : Blank lead) (hc : Blank colon) (ht : Blank trail)
    (members : List ((String × Json) × List Char))
    (hnames : ((members.map (·.1)).map (·.1)).Nodup)
    (hread : ∀ m ∈ members, ∀ budget rest, EndsNumber rest →
      Reads (readValue budget (m.2 ++ rest)) m.1.2 rest (m.1.2.depth ≤ budget))
    (budget : Nat) (rest : List Char) :
    Reads (readValue budget ('\x7b' ::
        (joined lead true (members.map fun m => memberText colon m.1.1 m.2) ++
          (trail ++ '\x7d' :: rest))))
      (object (members.map (·.1))) rest ((object (members.map (·.1))).depth ≤ budget) := by
  cases budget with
  | zero =>
    refine ⟨fun hfits => absurd hfits (by simp [depth]), fun _ => ?_⟩
    rw [readValue.eq_def]
    exact ⟨_, rfl, rfl⟩
  | succ budget =>
    have hfuel := length_le_joined lead true (members.map fun m => memberText colon m.1.1 m.2)
    have hmembers := readMembers_joined (P := fun x => x.depth ≤ budget) hl ht
      (readValue budget) members
      (fun m hm rest hr => by
        rw [readValue_blank hc]
        exact hread m hm budget rest hr)
      ((joined lead true (members.map fun m => memberText colon m.1.1 m.2) ++
        (trail ++ '\x7d' :: rest)).length + 1)
      (by simp only [List.length_append, List.length_cons, List.length_map] at hfuel ⊢; omega)
      [] hnames rest
    rw [readValue_object]
    refine (hmembers.bind (k := fun r => .ok (Json.object r.1, r.2)) (.of_eq rfl trivial)).of_iff ?_
    rw [and_true, depth_object_le_iff]

/-- A plain value is read back from each of its texts, as far as brackets may nest. -/
theorem Written.reads (h : Written v t) (hv : Plain v) (hr : EndsNumber rest) :
    Reads (readValue budget (t ++ rest)) v rest (v.depth ≤ budget) := by
  induction h generalizing budget rest with
  | null =>
    refine .of_eq ?_ (Nat.zero_le _)
    rw [readValue.eq_def]
    rfl
  | bool b =>
    refine .of_eq ?_ (Nat.zero_le _)
    rw [readValue.eq_def]
    cases b <;> rfl
  | number n =>
    cases hv with
    | integer lower upper => exact .of_eq (readValue_integer lower upper hr) (Nat.zero_le _)
  | string s => exact .of_eq (readValue_string s rest) (Nat.zero_le _)
  | array lead trail items hl ht h ih =>
    cases hv with
    | array hv =>
      rw [List.forall_mem_map] at hv
      have hstarts : ∀ p ∈ items, Starts p.2 := fun p hp => (h p hp).starts (hv p hp)
      simp only [List.cons_append, List.append_assoc, List.nil_append]
      exact reads_array hl ht items hstarts (fun p hp _ _ hr => ih p hp (hv p hp) hr) budget rest
  | object lead colon trail members hl hc ht h ih =>
    cases hv with
    | object hnames hv =>
      rw [List.forall_mem_map] at hv
      simp only [List.cons_append, List.append_assoc, List.nil_append]
      exact reads_object hl hc ht members hnames (fun m hm _ _ hr => ih m hm (hv m hm) hr) budget
        rest

/-! ### Whole texts -/

/-- A text of a plain value is parsed to that value, or refused for nesting too deeply. -/
theorem parse_written (h : Written v t) (hv : Plain v) :
    (v.depth ≤ depthLimit → parse (String.ofList t) = .ok v) ∧
      (depthLimit < v.depth → ∃ e, parse (String.ofList t) = .error e ∧ e.cause = .tooDeep) := by
  have hread : Reads (readValue depthLimit (t ++ [])) v [] (v.depth ≤ depthLimit) :=
    h.reads hv (by rintro c ⟨⟩)
  rw [List.append_nil] at hread
  rw [parse, String.toList_ofList, readWhole]
  refine ⟨fun hfits => ?_, fun hdeep => ?_⟩
  · rw [hread.ok hfits]
    rfl
  · obtain ⟨f, hf, hcause⟩ := hread.tooDeep (Nat.not_le.2 hdeep)
    rw [hf]
    exact ⟨f.locate t, rfl, hcause⟩

end IndexMapping.Json
