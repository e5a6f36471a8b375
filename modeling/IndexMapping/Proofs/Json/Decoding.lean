import IndexMapping.Json.Decoder
import IndexMapping.Proofs.Json.Reading

/-! Typed decoding of the texts of a value. A decoder decodes a value if it reads every text of the
value, whatever blanks stand before it. A list keeps the order of its elements, and a table the
names and the order of its members; for a record each member sets one field, and for a variant the
one member is the value that it carries. -/

namespace IndexMapping.Json

variable {α β σ : Type} {ms : List (String × Json)}

/-! ### Brackets as they are written -/

/-- How an object with some members is written after its opening bracket. -/
structure Layout (ms : List (String × Json)) where
  lead : List Char
  colon : List Char
  trail : List Char
  members : List ((String × Json) × List Char)
  blank_lead : Blank lead
  blank_colon : Blank colon
  blank_trail : Blank trail
  map_members : members.map (·.1) = ms
  written : ∀ m ∈ members, Written m.1.2 m.2

/-- The members and the closing bracket, with what follows them. -/
def Layout.text (l : Layout ms) (rest : List Char) : List Char :=
  joined l.lead true (l.members.map fun m => memberText l.colon m.1.1 m.2) ++
    (l.trail ++ '\x7d' :: rest)

theorem Written.exists_layout {t : List Char} (h : Written (.object ms) t) :
    ∃ l : Layout ms, ∀ rest, t ++ rest = '\x7b' :: l.text rest := by
  cases h with
  | object lead colon trail members hl hc ht hw =>
    exact ⟨⟨lead, colon, trail, members, hl, hc, ht, rfl, hw⟩, fun rest => by simp [Layout.text]⟩

/-- There is a step for each member and one for the end. -/
theorem Layout.length_lt (l : Layout ms) (rest : List Char) :
    l.members.length < (l.text rest).length + 1 := by
  have hlen := length_le_joined l.lead true
    (l.members.map fun m => memberText l.colon m.1.1 m.2)
  rw [List.length_map] at hlen
  simp only [Layout.text, List.length_append, List.length_cons]
  omega

/-- How an array is written. -/
theorem Written.exists_items {vs : List Json} {t : List Char} (h : Written (.array vs) t) :
    ∃ (lead trail : List Char) (items : List (Json × List Char)), Blank lead ∧ Blank trail ∧
      items.map (·.1) = vs ∧ (∀ p ∈ items, Written p.1 p.2) ∧
      ∀ rest,
        t ++ rest = '[' :: (joined lead true (items.map (·.2)) ++ (trail ++ ']' :: rest)) := by
  cases h with
  | array lead trail items hl ht hw =>
    exact ⟨lead, trail, items, hl, ht, rfl, hw, fun rest => by simp⟩

theorem Written.starts_object {t : List Char} (h : Written (.object ms) t) : Starts t := by
  cases h with
  | object => exact ⟨'\x7b', _, rfl, rfl, by decide⟩

namespace Decoder

variable {d : Decoder α} {v : Json} {x : α}

/-- The decoder gives `x` for every text of `v`, if brackets may nest as deeply as `v` does. -/
def Decodes (d : Decoder α) (v : Json) (x : α) : Prop :=
  ∀ t, Written v t → ∀ blanks, Blank blanks → ∀ budget, v.depth ≤ budget →
    ∀ rest, EndsNumber rest → d.ofText budget (blanks ++ (t ++ rest)) = .ok (x, rest)

theorem Decodes.map (f : α → β) (h : d.Decodes v x) : (d.map f).Decodes v (f x) := by
  intro t ht blanks hb budget hfits rest hr
  simp only [Decoder.map, h t ht blanks hb budget hfits rest hr]
  rfl

theorem decodes_string (s : String) : string.Decodes (.string s) s := by
  rintro t ht blanks hb budget - rest -
  cases ht with
  | string =>
    have htext : writeString s ++ rest = '"' :: (s.toList.flatMap escapeChar ++ '"' :: rest) := by
      simp [writeString]
    simp only [string, htext, skipBlank_append_cons hb (c := '"') rfl, readString_write]

theorem decodes_bool (b : Bool) : bool.Decodes (.bool b) b := by
  rintro t ht blanks hb budget - rest -
  cases ht with
  | bool =>
    cases b with
    | false =>
      show bool.ofText budget (blanks ++ 'f' :: ('a' :: 'l' :: 's' :: 'e' :: rest)) = _
      simp only [bool, skipBlank_append_cons hb (c := 'f') rfl]
      rfl
    | true =>
      show bool.ofText budget (blanks ++ 't' :: ('r' :: 'u' :: 'e' :: rest)) = _
      simp only [bool, skipBlank_append_cons hb (c := 't') rfl]
      rfl

theorem decodes_nullable_string (s : String) :
    string.nullable.Decodes (.string s) (some s) := by
  intro t ht blanks hb budget hfits rest hr
  have hd := decodes_string s t ht [] blank_nil budget hfits rest hr
  cases ht with
  | string =>
    have htext : writeString s ++ rest = '"' :: (s.toList.flatMap escapeChar ++ '"' :: rest) := by
      simp [writeString]
    rw [List.nil_append, htext] at hd
    rw [htext, Decoder.nullable]
    simp only [skipBlank_append_cons hb (c := '"') rfl]
    show (string.ofText budget _).map _ = _
    rw [hd]
    rfl

theorem decodes_object (h : ∀ (l : Layout ms) blanks, Blank blanks → ∀ budget,
    (∀ m ∈ ms, m.2.depth ≤ budget) → ∀ rest,
      d.ofText (budget + 1) (blanks ++ '\x7b' :: l.text rest) = .ok (x, rest)) :
    d.Decodes (.object ms) x := by
  intro t ht blanks hb budget hfits rest _
  obtain ⟨l, hl⟩ := ht.exists_layout
  cases budget with
  | zero => simp [depth] at hfits
  | succ budget =>
    rw [hl]
    exact h l blanks hb budget (depth_object_le_iff.1 hfits) rest

/-- What is no `null` is decoded as it is. -/
theorem Decodes.nullable (h : d.Decodes (.object ms) x) :
    d.nullable.Decodes (.object ms) (some x) := by
  intro t ht blanks hb budget hfits rest hr
  have hd := h t ht [] blank_nil budget hfits rest hr
  obtain ⟨l, hl⟩ := ht.exists_layout
  rw [List.nil_append, hl] at hd
  rw [hl, Decoder.nullable]
  simp only [skipBlank_append_cons hb (c := '\x7b') rfl]
  change (d.ofText budget ('\x7b' :: l.text rest)).map _ = _
  rw [hd]
  rfl

/-! ### Lists -/

theorem exists_parts {encode : α → Json} (xs : List α) (items : List (Json × List Char))
    (h : items.map (·.1) = xs.map encode) :
    ∃ parts : List (α × List Char), parts.map (·.1) = xs ∧
      parts.map (·.2) = items.map (·.2) ∧ ∀ p ∈ parts, (encode p.1, p.2) ∈ items := by
  induction xs generalizing items with
  | nil =>
    rw [List.map_nil, List.map_eq_nil_iff] at h
    exact ⟨[], by simp [h]⟩
  | cons x xs ih =>
    obtain ⟨i, items, rfl, hi, hitems⟩ := List.map_eq_cons_iff.1 h
    obtain ⟨parts, hxs, htexts, hmem⟩ := ih items hitems
    obtain ⟨v, t⟩ := i
    subst hi
    refine ⟨(x, t) :: parts, by rw [List.map_cons, hxs], by simp [htexts], ?_⟩
    rw [List.forall_mem_cons]
    exact ⟨List.mem_cons_self, fun p hp => List.mem_cons_of_mem _ (hmem p hp)⟩

/-- A list of objects is decoded element by element. -/
theorem decodes_list {encode : α → Json} {xs : List α}
    (hobject : ∀ x ∈ xs, ∃ ms, encode x = .object ms)
    (h : ∀ x ∈ xs, d.Decodes (encode x) x) :
    d.list.Decodes (.array (xs.map encode)) xs := by
  intro t ht blanks hb budget hfits rest _
  obtain ⟨lead, trail, items, hl, htrail, hitems, hw, htext⟩ := ht.exists_items
  obtain ⟨parts, rfl, htexts, hmem⟩ := exists_parts xs items hitems
  cases budget with
  | zero => simp [depth] at hfits
  | succ budget =>
    have hdepth := depth_array_le_iff.1 hfits
    rw [List.forall_mem_map] at hobject h
    have hstarts : ∀ p ∈ parts, Starts p.2 := by
      intro p hp
      obtain ⟨ms, hms⟩ := hobject p hp
      have hwritten := hw _ (hmem p hp)
      rw [hms] at hwritten
      exact hwritten.starts_object
    have hread : ∀ p ∈ parts, ∀ rest, EndsNumber rest →
        Reads (d.ofText budget (p.2 ++ rest)) p.1 rest True := by
      intro p hp rest hr
      have hfit := hdepth _ (List.mem_map_of_mem (List.mem_map_of_mem hp))
      exact .of_eq (h p hp p.2 (hw _ (hmem p hp)) [] blank_nil budget hfit rest hr) trivial
    have hlen := length_le_joined lead true (parts.map (·.2))
    have helements := (readElements_joined (P := fun _ => True) hl htrail (d.ofText budget) parts
      hstarts hread
      ((joined lead true (parts.map (·.2)) ++ (trail ++ ']' :: rest)).length + 1)
      (by simp only [List.length_append, List.length_cons, List.length_map] at hlen ⊢; omega)
      [] rest).ok fun _ _ => trivial
    rw [htext, ← htexts]
    simp only [list, skipBlank_append_cons hb (c := '[') rfl]
    simp only [List.isEmpty_nil] at helements
    rw [helements]
    rfl

/-! ### Tables -/

/-- The texts of the members of a table belong to its entries. -/
theorem exists_items {encode : α → Json} (colon : List Char) (xs : List (String × α))
    (members : List ((String × Json) × List Char))
    (h : members.map (·.1) = xs.map fun x => (x.1, encode x.2)) :
    ∃ items : List ((String × α) × List Char), items.map (·.1) = xs ∧
      (items.map fun i => memberText colon i.1.1 i.2) =
        (members.map fun m => memberText colon m.1.1 m.2) ∧
      ∀ i ∈ items, ((i.1.1, encode i.1.2), i.2) ∈ members := by
  induction xs generalizing members with
  | nil =>
    rw [List.map_nil, List.map_eq_nil_iff] at h
    exact ⟨[], by simp [h]⟩
  | cons x xs ih =>
    obtain ⟨m, members, rfl, hm, hmembers⟩ := List.map_eq_cons_iff.1 h
    obtain ⟨items, hxs, htexts, hmem⟩ := ih members hmembers
    obtain ⟨entry, t⟩ := m
    subst hm
    refine ⟨(x, t) :: items, by rw [List.map_cons, hxs], by simp [htexts], ?_⟩
    rw [List.forall_mem_cons]
    exact ⟨List.mem_cons_self, fun i hi => List.mem_cons_of_mem _ (hmem i hi)⟩

/-- A table under distinct names is decoded entry by entry. -/
theorem decodes_table {encode : α → Json} {xs : List (String × α)} (hnames : (xs.map (·.1)).Nodup)
    (h : ∀ x ∈ xs, d.Decodes (encode x.2) x.2) :
    d.table.Decodes (.object (xs.map fun x => (x.1, encode x.2))) xs := by
  refine decodes_object fun l blanks hb budget hfits rest => ?_
  obtain ⟨items, hxs, htexts, hmem⟩ := exists_items l.colon xs l.members l.map_members
  have hlen : items.length = l.members.length := by
    simpa using congrArg List.length htexts
  have hread : ∀ i ∈ items, ∀ rest, EndsNumber rest →
      Reads (d.ofText budget (l.colon ++ (i.2 ++ rest))) i.1.2 rest True := by
    intro i hi rest hr
    have hx : i.1 ∈ xs := hxs ▸ List.mem_map_of_mem hi
    have hdepth := hfits _ (List.mem_map_of_mem (f := fun x => (x.1, encode x.2)) hx)
    exact .of_eq
      (h i.1 hx i.2 (l.written _ (hmem i hi)) l.colon l.blank_colon budget hdepth rest hr) trivial
  have hmembers := readMembers_joined (P := fun _ => True) l.blank_lead l.blank_trail
    (d.ofText budget) items hread ((l.text rest).length + 1) (hlen ▸ l.length_lt rest) []
    (by simpa [hxs] using hnames) rest
  have hok : readMembers (d.ofText budget) ((l.text rest).length + 1) [] (l.text rest) =
      .ok (xs, rest) := by
    rw [htexts, hxs] at hmembers
    exact hmembers.ok fun _ _ => trivial
  simp only [table, skipBlank_append_cons hb (c := '\x7b') rfl, hok]
  rfl

end Decoder

/-! ### Records -/

namespace Record

variable {r : Record σ α} {s s' : σ} {f : RecordField σ} {cs rest : List Char} {name : String}
  {budget fuel : Nat} {first : Bool} {x : α}

/-- Members that each set a field that is not set yet lead from one state to another. -/
inductive Gathers (r : Record σ α) : σ → List (String × Json) → σ → Prop
  | nil (s : σ) : Gathers r s [] s
  | cons {s s' : σ} {f : RecordField σ} {set : σ → σ} {name : String} {v : Json}
      {ms : List (String × Json)} (hf : r.field? name = some f) (hs : f.isSet s = false)
      (hd : f.decoder.Decodes v set) (h : Gathers r (set s) ms s') :
      Gathers r s ((name, v) :: ms) s'

/-- A member whose decoded value updates the state. -/
theorem Gathers.update {d : Decoder β} {y : β} {set : β → σ → σ} {field : String} {required : Bool}
    {isSet : σ → Bool} {v : Json} (hf : r.field? name = some ⟨field, required, isSet, d.map set⟩)
    (hs : isSet s = false) (hd : d.Decodes v y) (h : r.Gathers (set y s) ms s') :
    r.Gathers s ((name, v) :: ms) s' := .cons hf hs (hd.map set) h

theorem readObject_step (hf : r.field? name = some f) (hs : f.isSet s = false)
    (h : nextName first cs = .ok (some (), name.toList.flatMap escapeChar ++ '"' :: ':' :: rest)) :
    r.readObject budget (fuel + 1) first s cs =
      f.decoder.ofText budget rest >>= fun p => r.readObject budget fuel false (p.1 s) p.2 := by
  rw [readObject, h, ok_bind]
  simp only [readString_write, ok_bind, hf, hs, readColon_cons]
  rfl

theorem readObject_close (h : nextName first cs = .ok (none, rest)) :
    r.readObject budget (fuel + 1) first s cs = .ok (s, rest) := by
  rw [readObject, h]
  rfl

/-- The members are read from their texts joined, up to the closing bracket. -/
theorem readObject_joined {lead colon trail : List Char} (hl : Blank lead) (hc : Blank colon)
    (ht : Blank trail) (members : List ((String × Json) × List Char))
    (hw : ∀ m ∈ members, Written m.1.2 m.2) (hfits : ∀ m ∈ members, m.1.2.depth ≤ budget)
    (h : r.Gathers s (members.map (·.1)) s') (hfuel : members.length < fuel) (rest : List Char) :
    r.readObject budget fuel first s
        (joined lead first (members.map fun m => memberText colon m.1.1 m.2) ++
          (trail ++ '\x7d' :: rest)) =
      .ok (s', '\x7d' :: rest) := by
  induction members generalizing fuel s first with
  | nil =>
    obtain ⟨fuel, rfl⟩ := Nat.exists_eq_succ_of_ne_zero (Nat.ne_zero_of_lt hfuel)
    cases h
    exact readObject_close (nextName_close ht first rest)
  | cons m members ih =>
    obtain ⟨fuel, rfl⟩ := Nat.exists_eq_succ_of_ne_zero (Nat.ne_zero_of_lt hfuel)
    obtain ⟨⟨name, v⟩, t⟩ := m
    obtain ⟨hw, hws⟩ := List.forall_mem_cons.1 hw
    obtain ⟨hfit, hfits⟩ := List.forall_mem_cons.1 hfits
    cases h with
    | cons hf hs hd h =>
      have hend : EndsNumber (trail ++ '\x7d' :: rest) :=
        endsNumber_blank ht (endsNumber_cons (by simp) rest)
      have hmore : EndsNumber
          (joined lead false (members.map fun m => memberText colon m.1.1 m.2) ++
            (trail ++ '\x7d' :: rest)) := endsNumber_joined hend _
      rw [List.map_cons, joined, List.append_assoc, List.append_assoc, memberText_append,
        readObject_step hf hs (nextName_separated hl first _),
        hd t hw colon hc budget hfit _ hmore, ok_bind]
      exact ih hws hfits h (by simpa using hfuel)

/-- A record is decoded from an object whose members set all that is required. -/
theorem decodes_of_gathers (h : r.Gathers r.empty ms s) (hx : r.complete s = .ok x) :
    r.decoder.Decodes (.object ms) x := by
  refine Decoder.decodes_object fun l blanks hb budget hfits rest => ?_
  have hdepth : ∀ m ∈ l.members, m.1.2.depth ≤ budget := fun m hm =>
    hfits m.1 (l.map_members ▸ List.mem_map_of_mem hm)
  have hread : r.readObject budget ((l.text rest).length + 1) true r.empty (l.text rest) =
      .ok (s, '\x7d' :: rest) :=
    readObject_joined l.blank_lead l.blank_colon l.blank_trail l.members l.written hdepth
      (by rwa [l.map_members]) (l.length_lt rest) rest
  simp only [decoder, skipBlank_append_cons hb (c := '\x7b') rfl, hread, ok_bind, finish, hx]
  rfl

end Record

/-! ### Variants -/

/-- An alternative that carries a value is decoded if its value is. -/
theorem Variant.decodes {alternatives : List (Variant α)} {name : String} {v : Json} {x : α}
    {plain : Option α} {d : Decoder α}
    (ha : alternatives.find? (·.name = name) = some ⟨name, some d, plain⟩) (h : d.Decodes v x) :
    (Variant.decoder alternatives).Decodes (.object [(name, v)]) x := by
  refine Decoder.decodes_object fun l blanks hb budget hfits rest => ?_
  obtain ⟨m, hm, hname⟩ := List.map_eq_singleton_iff.1 l.map_members
  obtain ⟨entry, t⟩ := m
  obtain rfl : entry = (name, v) := hname
  have hw : Written v t := l.written ((name, v), t) (by rw [hm]; exact List.mem_cons_self)
  have hend : EndsNumber (l.trail ++ '\x7d' :: rest) :=
    endsNumber_blank l.blank_trail (endsNumber_cons (by simp) rest)
  have hfit : v.depth ≤ budget := hfits (name, v) List.mem_cons_self
  have htext : l.text rest = [] ++ l.lead ++ '"' :: (name.toList.flatMap escapeChar ++
      '"' :: ':' :: (l.colon ++ (t ++ (l.trail ++ '\x7d' :: rest)))) := by
    simp [Layout.text, hm, joined, memberText, writeString]
  have hname : nextName true (l.text rest) = .ok (some (), name.toList.flatMap escapeChar ++
      '"' :: ':' :: (l.colon ++ (t ++ (l.trail ++ '\x7d' :: rest)))) := by
    rw [htext]
    exact nextName_separated l.blank_lead true _
  have hfind : find alternatives name = .ok ⟨name, some d, plain⟩ := by
    rw [find, ha]
  have hvalue := h t hw l.colon l.blank_colon budget hfit _ hend
  simp only [decoder, skipBlank_append_cons hb (c := '\x7b') rfl, hname, ok_bind, readString_write,
    hfind, readColon_cons, value, hvalue, skipBlank_append_cons l.blank_trail (c := '\x7d') rfl]

/-! ### Whole texts -/

theorem Decoder.Decodes.parse_eq {d : Decoder α} {v : Json} {x : α} {t : List Char}
    (h : d.Decodes v x) (ht : Written v t) (hfits : v.depth ≤ depthLimit) :
    d.parse (String.ofList t) = .ok x := by
  have hread := h t ht [] blank_nil depthLimit hfits [] (by rintro c ⟨⟩)
  rw [List.nil_append, List.append_nil] at hread
  rw [Decoder.parse, String.toList_ofList, readWhole, hread]
  rfl

end IndexMapping.Json
