import IndexMapping.Proofs.Decimal.Layout
import IndexMapping.Proofs.Json.Regular
import IndexMapping.Proofs.Json.Strings
import IndexMapping.Proofs.Json.Written

/-! Compact texts. A value can be told from its compact text, also when the text goes on with what
cannot be a part of a number. Outside of its strings, the text has no blanks and no backslashes. -/

namespace IndexMapping.Json

variable {v w : Json} {r r' cs : List Char} {c : Char}

/-! ### Numbers -/

/-- The characters that numbers are made of. -/
def inNumber (c : Char) : Bool := c.isDigit || c = '.' || c = 'e' || c = '+' || c = '-'

/-- The text does not go on with a part of a number. -/
def Stops (r : List Char) : Prop := ∀ c ∈ r.head?, inNumber c = false

theorem stops_nil : Stops [] := by
  rintro c ⟨⟩

theorem stops_cons (h : inNumber c = false) (r : List Char) : Stops (c :: r) := by
  rintro d ⟨⟩
  exact h

theorem inNumber_of_isDigit (h : c.isDigit = true) : inNumber c = true := by
  simp [inNumber, h]

theorem digitsOf_injective {m n : Nat} (h : Decimal.digitsOf m = Decimal.digitsOf n) : m = n := by
  have hvalue := congrArg (Nat.ofDigitChars 10 · 0) h
  simpa only [Decimal.digitsOf, Nat.ofDigitChars_ten_toDigits] using hvalue

/-- A whole number is written in digits, maybe after a sign. -/
theorem exists_writeInteger (n : Int) : ∃ d ds, Decimal.AllDigits (d :: ds) ∧
    (writeInteger n = d :: ds ∨ writeInteger n = '-' :: d :: ds) := by
  have hdigits := Decimal.allDigits_digitsOf n.natAbs
  obtain ⟨d, ds, hds⟩ : ∃ d ds, Decimal.digitsOf n.natAbs = d :: ds :=
    List.exists_cons_of_ne_nil Nat.toDigits_ne_nil
  rw [hds] at hdigits
  refine ⟨d, ds, hdigits, ?_⟩
  unfold writeInteger
  rw [hds]
  split_ifs
  · exact .inr rfl
  · exact .inl rfl

theorem writeInteger_injective {m n : Int} (h : writeInteger m = writeInteger n) : m = n := by
  have hminus : ∀ k, '-' ∉ Decimal.digitsOf k := fun k hk =>
    absurd (Decimal.allDigits_digitsOf k _ hk) (by decide)
  unfold writeInteger at h
  split_ifs at h with hm hn hn
  · have habs := digitsOf_injective (List.cons.inj h).2
    omega
  · exact absurd (h ▸ List.mem_cons_self) (hminus n.natAbs)
  · exact absurd (h ▸ List.mem_cons_self) (hminus m.natAbs)
  · have habs := digitsOf_injective h
    omega

/-- A float is written with a point or an exponent after its whole digits. -/
theorem exists_writeFloat (x : Decimal.Binary64) : ∃ d ds c cs,
    Decimal.AllDigits (d :: ds) ∧ (c = '.' ∨ c = 'e') ∧
      (∀ a ∈ cs, a.isDigit = true ∨ a = 'e' ∨ a = '+' ∨ a = '-') ∧
      (floatLayout.write x = d :: (ds ++ c :: cs) ∨
        floatLayout.write x = '-' :: d :: (ds ++ c :: cs)) := by
  obtain ⟨d, ds, rest, htext, hdigits, hends⟩ :=
    Decimal.Layout.shaped_magnitude floatLayout (Decimal.Shortest.ofBinary floatLayout.tie x)
  cases hends with
  | whole h => exact absurd h (by decide)
  | @part c cs hc hcs =>
    refine ⟨d, ds, c, cs, hdigits, hc, hcs, ?_⟩
    rw [Decimal.Layout.write, htext]
    split
    · exact .inr rfl
    · exact .inl rfl

theorem inNumber_of_mem {n : Number} (h : c ∈ writeNumber n) : inNumber c = true := by
  cases n with
  | integer n =>
    obtain ⟨d, ds, hds, htext | htext⟩ := exists_writeInteger n
    · rw [writeNumber, htext] at h
      exact inNumber_of_isDigit (hds c h)
    · rw [writeNumber, htext] at h
      rcases List.mem_cons.1 h with rfl | h
      · rfl
      · exact inNumber_of_isDigit (hds c h)
  | float x =>
    obtain ⟨d, ds, a, as, hds, ha, has, htext⟩ := exists_writeFloat x
    have hpart : ∀ c ∈ d :: (ds ++ a :: as), inNumber c = true := by
      rw [← List.cons_append]
      refine List.forall_mem_append.2 ⟨fun c hc => inNumber_of_isDigit (hds c hc), ?_⟩
      refine List.forall_mem_cons.2 ⟨by rcases ha with rfl | rfl <;> rfl, fun c hc => ?_⟩
      rcases has c hc with hdigit | rfl | rfl | rfl
      · exact inNumber_of_isDigit hdigit
      · rfl
      · rfl
      · rfl
    rcases htext with htext | htext
    · rw [writeNumber, htext] at h
      exact hpart c h
    · rw [writeNumber, htext] at h
      rcases List.mem_cons.1 h with rfl | h
      · rfl
      · exact hpart c h

theorem writeInteger_ne_writeFloat (n : Int) (x : Decimal.Binary64) :
    writeInteger n ≠ floatLayout.write x := by
  intro heq
  obtain ⟨d, ds, a, as, -, ha, -, hfloat⟩ := exists_writeFloat x
  obtain ⟨e, es, hes, hinteger⟩ := exists_writeInteger n
  -- the whole number has neither a point nor an exponent
  have hmem : a ∈ writeInteger n := by
    rw [heq]
    rcases hfloat with hfloat | hfloat <;> simp [hfloat]
  have hdigit : a.isDigit = true ∨ a = '-' := by
    rcases hinteger with hinteger | hinteger
    · rw [hinteger] at hmem
      exact .inl (hes a hmem)
    · rw [hinteger] at hmem
      exact (List.mem_cons.1 hmem).symm.imp_left (hes a)
  rcases ha with rfl | rfl <;> revert hdigit <;> decide

theorem writeNumber_injective {m n : Number} (hm : m.Regular) (hn : n.Regular)
    (h : writeNumber m = writeNumber n) : m = n := by
  cases m with
  | integer m =>
    cases n with
    | integer n => rw [writeInteger_injective h]
    | float y => exact absurd h (writeInteger_ne_writeFloat m y)
  | float x =>
    cases n with
    | integer n => exact absurd h.symm (writeInteger_ne_writeFloat n x)
    | float y => rw [Decimal.Layout.eq_of_write hm hn h]

/-- The digits of a number end where it stops. -/
theorem writeNumber_append_inj {m n : Number} (h : writeNumber m ++ r = writeNumber n ++ r')
    (hr : Stops r) (hr' : Stops r') : writeNumber m = writeNumber n ∧ r = r' := by
  have htake : ∀ {n : Number} {r : List Char}, Stops r →
      (writeNumber n ++ r).takeWhile inNumber = writeNumber n := by
    intro n r hr
    rw [List.takeWhile_append_of_pos fun c hc => inNumber_of_mem hc]
    cases r with
    | nil => simp
    | cons c r => simp [hr c rfl]
  have htext := congrArg (List.takeWhile inNumber) h
  rw [htake hr, htake hr'] at htext
  exact ⟨htext, List.append_cancel_left (htext ▸ h)⟩

/-! ### Strings -/

theorem writeString_append_inj {s t : String} (h : writeString s ++ r = writeString t ++ r') :
    s = t ∧ r = r' := by
  have htext : ∀ (s : String) (r : List Char),
      writeString s ++ r = '"' :: (s.toList.flatMap escapeChar ++ '"' :: r) := by
    intro s r
    simp [writeString]
  rw [htext, htext] at h
  have hread := congrArg readString (List.cons.inj h).2
  rw [readString_write, readString_write] at hread
  cases hread
  exact ⟨rfl, rfl⟩

/-! ### First characters -/

/-- Which kind of value starts with a character. -/
def kindOf (c : Char) : Nat :=
  if c = 'n' then 0
  else if c = 't' || c = 'f' then 1
  else if c.isDigit || c = '-' then 2
  else if c = '"' then 3
  else if c = '[' then 4
  else if c = '\x7b' then 5
  else 6

def kind : Json → Nat
  | null => 0
  | bool _ => 1
  | number _ => 2
  | string _ => 3
  | array _ => 4
  | object _ => 5

theorem kindOf_of_isDigit (h : c.isDigit = true) : kindOf c = 2 := by
  have hne : ∀ d : Char, d.isDigit = false → c ≠ d := fun d hd heq => by
    rw [heq, hd] at h
    cases h
  simp [kindOf, h, hne 'n' rfl, hne 't' rfl, hne 'f' rfl]

theorem exists_head (v : Json) : ∃ c cs, v.writeCompact = c :: cs ∧ kindOf c = v.kind := by
  cases v with
  | null => exact ⟨_, _, rfl, rfl⟩
  | bool b => cases b <;> exact ⟨_, _, rfl, rfl⟩
  | number n =>
    cases n with
    | integer n =>
      obtain ⟨d, ds, hds, htext | htext⟩ := exists_writeInteger n
      · exact ⟨d, ds, htext, kindOf_of_isDigit (hds d List.mem_cons_self)⟩
      · exact ⟨'-', _, htext, rfl⟩
    | float x =>
      obtain ⟨d, ds, a, as, hds, -, -, htext | htext⟩ := exists_writeFloat x
      · exact ⟨d, _, htext, kindOf_of_isDigit (hds d List.mem_cons_self)⟩
      · exact ⟨'-', _, htext, rfl⟩
  | string s => exact ⟨_, _, rfl, rfl⟩
  | array xs => exact ⟨_, _, rfl, rfl⟩
  | object ms => exact ⟨_, _, rfl, rfl⟩

theorem kind_lt (v : Json) : v.kind < 6 := by
  cases v <;> simp [kind]

theorem kind_eq_of_append (h : v.writeCompact ++ r = w.writeCompact ++ r') : v.kind = w.kind := by
  obtain ⟨c, cs, hv, hc⟩ := exists_head v
  obtain ⟨d, ds, hw, hd⟩ := exists_head w
  rw [hv, hw] at h
  rw [← hc, ← hd, (List.cons.inj h).1]

/-! ### Brackets -/

section brackets

variable {α : Type} {text : α → List Char} {close : Char} {first : Bool}

theorem stops_joined (hclose : inNumber close = false) (ts : List (List Char)) (r : List Char) :
    Stops (joined [] false ts ++ close :: r) := by
  cases ts with
  | nil => exact stops_cons hclose r
  | cons t ts => exact stops_cons rfl _

/-- The parts of a bracket can be told from its text if each of them can. -/
theorem joined_inj {P : α → Prop} (hcomma : close ≠ ',') (hclose : inNumber close = false)
    (hhead : ∀ x cs, text x ≠ close :: cs ∧ text x ≠ []) {xs ys : List α}
    (hxs : ∀ x ∈ xs, ∀ y r r', P y → text x ++ r = text y ++ r' → Stops r → Stops r' →
      x = y ∧ r = r')
    (hys : ∀ y ∈ ys, P y)
    (h : joined [] first (xs.map text) ++ close :: r =
      joined [] first (ys.map text) ++ close :: r') : xs = ys ∧ r = r' := by
  -- a bracket that closes at once does not go on with a part
  have hnil : ∀ (first : Bool) (y : α) (ys : List α) (r r' : List Char),
      close :: r ≠ joined [] first ((y :: ys).map text) ++ close :: r' := by
    intro first y ys r r' heq
    cases first with
    | false => exact hcomma (List.cons.inj heq).1
    | true =>
      cases htext : text y with
      | nil => exact (hhead y []).2 htext
      | cons c cs =>
        simp only [List.map_cons, joined, htext, if_true, List.nil_append, List.cons_append] at heq
        exact (hhead y cs).1 ((List.cons.inj heq).1 ▸ htext)
  induction xs generalizing first ys with
  | nil =>
    cases ys with
    | nil => exact ⟨rfl, (List.cons.inj h).2⟩
    | cons y ys => exact absurd h (hnil first y ys r r')
  | cons x xs ih =>
    cases ys with
    | nil => exact absurd h.symm (hnil first x xs r' r)
    | cons y ys =>
      obtain ⟨hx, hxs'⟩ := List.forall_mem_cons.1 hxs
      obtain ⟨hy, hys'⟩ := List.forall_mem_cons.1 hys
      simp only [List.map_cons, joined, List.append_nil, List.append_assoc,
        List.append_cancel_left_eq] at h
      obtain ⟨rfl, hrest⟩ := hx y _ _ hy h (stops_joined hclose _ _) (stops_joined hclose _ _)
      obtain ⟨rfl, rfl⟩ := ih hxs' hys' hrest
      exact ⟨rfl, rfl⟩

end brackets

/-! ### Values -/

theorem ne_close (v : Json) {close : Char} (hclose : kindOf close = 6) (cs : List Char) :
    v.writeCompact ≠ close :: cs ∧ v.writeCompact ≠ [] := by
  obtain ⟨c, ds, htext, hc⟩ := exists_head v
  have hlt := v.kind_lt
  rw [htext]
  refine ⟨fun heq => ?_, List.cons_ne_nil _ _⟩
  rw [(List.cons.inj heq).1] at hc
  omega

theorem memberText_ne (m : String × Json) (cs : List Char) :
    memberText [] m.1 m.2.writeCompact ≠ '\x7d' :: cs ∧
      memberText [] m.1 m.2.writeCompact ≠ [] := by
  constructor
  · simp [memberText, writeString]
  · simp [memberText, writeString]

/-- The text of a value ends where the value does. -/
theorem writeCompact_append_inj (hv : v.Regular) (hw : w.Regular)
    (h : v.writeCompact ++ r = w.writeCompact ++ r') (hr : Stops r) (hr' : Stops r') :
    v = w ∧ r = r' := by
  have hkind := kind_eq_of_append h
  induction hv generalizing w r r' with
  | null =>
    cases hw with
    | null => exact ⟨rfl, List.append_cancel_left h⟩
    | _ => cases hkind
  | bool b =>
    cases hw with
    | bool b' => cases b <;> cases b' <;> simp_all [writeCompact, writeBool]
    | _ => cases hkind
  | @number m hm =>
    cases hw with
    | @number n hn =>
      obtain ⟨htext, hrest⟩ := writeNumber_append_inj h hr hr'
      exact ⟨by rw [writeNumber_injective hm hn htext], hrest⟩
    | _ => cases hkind
  | string s =>
    cases hw with
    | string t =>
      obtain ⟨rfl, hrest⟩ := writeString_append_inj h
      exact ⟨rfl, hrest⟩
    | _ => cases hkind
  | @array xs items ih =>
    cases hw with
    | @array ys items' =>
      have hjoined : joined [] true (xs.map writeCompact) ++ ']' :: r =
          joined [] true (ys.map writeCompact) ++ ']' :: r' := by
        simpa [writeCompact, writeItems_eq] using h
      obtain ⟨rfl, hrest⟩ := joined_inj (by decide) rfl (fun x cs => ne_close x rfl cs)
        (fun x hx y r r' hy h hr hr' => ih x hx hy h hr hr' (kind_eq_of_append h)) items' hjoined
      exact ⟨rfl, hrest⟩
    | _ => cases hkind
  | @object ms values ih =>
    cases hw with
    | @object ns values' =>
      have hjoined : joined [] true (ms.map fun m => memberText [] m.1 m.2.writeCompact) ++
            '\x7d' :: r =
          joined [] true (ns.map fun m => memberText [] m.1 m.2.writeCompact) ++ '\x7d' :: r' := by
        simpa [writeCompact, writeMembers_eq] using h
      have hmember : ∀ m ∈ ms, ∀ (n : String × Json) r r', n.2.Regular →
          memberText [] m.1 m.2.writeCompact ++ r = memberText [] n.1 n.2.writeCompact ++ r' →
          Stops r → Stops r' → m = n ∧ r = r' := by
        intro m hm n r r' hn h hr hr'
        simp only [memberText, List.append_assoc] at h
        obtain ⟨hname, hcolon⟩ := writeString_append_inj h
        have hvalue := (List.cons.inj hcolon).2
        obtain ⟨hm, hrest⟩ := ih m hm hn hvalue hr hr' (kind_eq_of_append hvalue)
        exact ⟨Prod.ext hname hm, hrest⟩
      obtain ⟨rfl, hrest⟩ := joined_inj (by decide) rfl memberText_ne hmember values' hjoined
      exact ⟨rfl, hrest⟩
    | _ => cases hkind

/-- Values with one compact text are the same. -/
theorem eq_of_compact (hv : v.Regular) (hw : w.Regular) (h : v.compact = w.compact) : v = w := by
  have htext : v.writeCompact = w.writeCompact := String.ofList_injective h
  exact (writeCompact_append_inj hv hw (congrArg (· ++ []) htext) stops_nil stops_nil).1

end IndexMapping.Json
