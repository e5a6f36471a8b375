import IndexMapping.Proofs.Json.Compact

/-! What stands outside the strings of a compact text. A scan that tells the inside of strings from
the outside finds no blank, no backslash and no end of a line outside, so that a text that starts
within a string of another text ends within a string as well. -/

namespace IndexMapping.Json

/-- Where a scan is: outside of strings, in a string, or behind a backslash in a string. -/
inductive Place where
  | outside
  | inside
  | escaped
  deriving DecidableEq

namespace Place

/-- The place after a character; a blank or a backslash outside and the end of a line anywhere are
faults. -/
def after : Place → Char → Option Place
  | outside, c =>
    if c = '"' then some inside else if c = ' ' || c = '\\' || c = '\n' then none else some outside
  | inside, c =>
    if c = '"' then some outside else if c = '\\' then some escaped
    else if c = '\n' then none else some inside
  | escaped, c => if c = '\n' then none else some inside

/-- One of the places is outside and the other one in a string. -/
def Opposite (p q : Place) : Prop := p = outside ∧ q = inside ∨ p = inside ∧ q = outside

end Place

open Place (outside inside escaped Opposite)

/-- The place after a text. -/
def scan (p : Place) (cs : List Char) : Option Place := cs.foldlM Place.after p

variable {p q : Place} {c : Char} {cs ds : List Char} {v w : Json}

theorem scan_cons (p : Place) (c : Char) (cs : List Char) :
    scan p (c :: cs) = (p.after c).bind fun q => scan q cs := rfl

theorem scan_append (p : Place) (cs ds : List Char) :
    scan p (cs ++ ds) = (scan p cs).bind fun q => scan q ds := by
  simp only [scan, List.foldlM_append]
  rfl

theorem scan_append_of_eq (h : scan p cs = some q) (ds : List Char) :
    scan p (cs ++ ds) = scan q ds := by
  rw [scan_append, h, Option.bind_some]

/-! ### Scans of compact texts -/

theorem scan_number (n : Number) : scan outside (writeNumber n) = some outside := by
  have hall : ∀ c ∈ writeNumber n, inNumber c = true := fun c hc => inNumber_of_mem hc
  generalize writeNumber n = cs at hall
  induction cs with
  | nil => rfl
  | cons c cs ih =>
    obtain ⟨hc, hcs⟩ := List.forall_mem_cons.1 hall
    have hne : ∀ d : Char, inNumber d = false → c ≠ d := fun d hd heq => by
      rw [heq, hd] at hc
      cases hc
    have hafter : outside.after c = some outside := by
      simp [Place.after, hne '"' rfl, hne ' ' rfl, hne '\\' rfl, hne '\n' rfl]
    rw [scan_cons, hafter, Option.bind_some]
    exact ih hcs

theorem scan_escapeChar (c : Char) : scan inside (escapeChar c) = some inside := by
  rcases escapeChar_cases c with ⟨e, htext, -, hshort⟩ | ⟨-, htext⟩ | ⟨hq, hb, hc, htext⟩
  · have hline : e ≠ '\n' := by
      rintro rfl
      cases hshort
    rw [htext]
    simp [scan, Place.after, hline]
  · rw [htext]
    simp [scan, Place.after, lowHex]
  · have hline : c ≠ '\n' := by
      rintro rfl
      exact hc (by decide)
    rw [htext]
    simp [scan, Place.after, hq, hb, hline]

theorem scan_string (s : String) : scan outside (writeString s) = some outside := by
  have hchars : ∀ cs : List Char, scan inside (cs.flatMap escapeChar) = some inside := by
    intro cs
    induction cs with
    | nil => rfl
    | cons c cs ih => rw [List.flatMap_cons, scan_append_of_eq (scan_escapeChar c), ih]
  rw [writeString, List.cons_append, scan_cons]
  show scan inside (s.toList.flatMap escapeChar ++ ['"']) = some outside
  rw [scan_append_of_eq (hchars _)]
  rfl

theorem scan_joined {ts : List (List Char)} (h : ∀ t ∈ ts, scan outside t = some outside)
    (first : Bool) : scan outside (joined [] first ts) = some outside := by
  induction ts generalizing first with
  | nil => rfl
  | cons t ts ih =>
    obtain ⟨ht, hts⟩ := List.forall_mem_cons.1 h
    have hcomma : scan outside (if first then [] else [',']) = some outside := by
      cases first <;> rfl
    rw [joined, List.append_nil, List.append_assoc, scan_append_of_eq hcomma, scan_append_of_eq ht]
    exact ih hts false

/-- A compact text has no fault, and it ends outside of its strings. -/
theorem scan_writeCompact (v : Json) : scan outside v.writeCompact = some outside := by
  induction v using induction with
  | null => rfl
  | bool b => cases b <;> rfl
  | number n => exact scan_number n
  | string s => exact scan_string s
  | array xs ih =>
    rw [writeCompact, writeItems_eq, List.cons_append, scan_cons]
    show scan outside (joined [] true (xs.map writeCompact) ++ [']']) = some outside
    rw [scan_append_of_eq (scan_joined (List.forall_mem_map.2 ih) true)]
    rfl
  | object ms ih =>
    rw [writeCompact, writeMembers_eq, List.cons_append, scan_cons]
    have hmembers : ∀ m ∈ ms, scan outside (memberText [] m.1 m.2.writeCompact) = some outside := by
      intro m hm
      rw [memberText, List.append_assoc, scan_append_of_eq (scan_string m.1)]
      exact ih m hm
    show scan outside (joined [] true (ms.map _) ++ ['\x7d']) = some outside
    rw [scan_append_of_eq (scan_joined (List.forall_mem_map.2 hmembers) true)]
    rfl

/-! ### What a scan tells -/

theorem newline_notMem (h : scan p cs = some q) : '\n' ∉ cs := by
  induction cs generalizing p with
  | nil => exact List.not_mem_nil
  | cons c cs ih =>
    rw [scan_cons, Option.bind_eq_some_iff] at h
    obtain ⟨p', hp', h⟩ := h
    rw [List.mem_cons, not_or]
    refine ⟨?_, ih h⟩
    rintro rfl
    cases p <;> cases hp'

theorem after_opposite {p' q' : Place} (h : Opposite p q) (hp : p.after c = some p')
    (hq : q.after c = some q') : Opposite p' q' := by
  have hswap : ∀ {p' q'}, outside.after c = some p' → inside.after c = some q' →
      p' = outside ∧ q' = inside ∨ p' = inside ∧ q' = outside := by
    intro p' q' hp hq
    simp only [Place.after] at hp hq
    split_ifs at hp hq <;> simp_all
  rcases h with ⟨rfl, rfl⟩ | ⟨rfl, rfl⟩
  · exact hswap hp hq
  · exact (hswap hq hp).symm.imp (fun h => h.symm) fun h => h.symm

/-- Scans from opposite places end at opposite places. -/
theorem scan_opposite {p' q' : Place} (h : Opposite p q) (hp : scan p cs = some p')
    (hq : scan q cs = some q') : Opposite p' q' := by
  induction cs generalizing p q with
  | nil =>
    cases hp
    cases hq
    exact h
  | cons c cs ih =>
    rw [scan_cons, Option.bind_eq_some_iff] at hp hq
    obtain ⟨p₁, hp₁, hp⟩ := hp
    obtain ⟨q₁, hq₁, hq⟩ := hq
    exact ih (after_opposite h hp₁ hq₁) hp hq

/-- No text that follows a blank in a compact text is a compact text. -/
theorem writeCompact_ne_blank (v w : Json) (cs : List Char) :
    v.writeCompact ≠ cs ++ ' ' :: '=' :: ' ' :: w.writeCompact := by
  intro htext
  have hv := scan_writeCompact v
  rw [htext, scan_append, Option.bind_eq_some_iff] at hv
  obtain ⟨p, -, hv⟩ := hv
  -- the blank stands in a string, and so does what comes after it
  have hinside : scan inside w.writeCompact = some outside := by
    cases p with
    | outside => cases hv
    | inside => exact hv
    | escaped => exact hv
  rcases scan_opposite (.inl ⟨rfl, rfl⟩) (scan_writeCompact w) hinside with ⟨-, h⟩ | ⟨h, -⟩
  · cases h
  · cases h

/-! ### Assignments -/

/-- A name with a value, on one line. -/
def assignment (name : List Char) (v : Json) : List Char :=
  name ++ ' ' :: '=' :: ' ' :: v.writeCompact

theorem nil_of_assignment (h : ' ' :: '=' :: ' ' :: v.writeCompact = assignment cs w) :
    cs = [] := by
  unfold assignment at h
  cases cs with
  | nil => rfl
  | cons a cs =>
    have h := (List.cons.inj h).2
    cases cs with
    | nil => cases h
    | cons b cs =>
      have h := (List.cons.inj h).2
      cases cs with
      | nil => exact absurd (List.cons.inj h).2 (ne_close v rfl _).1
      | cons c cs => exact absurd (List.cons.inj h).2 (writeCompact_ne_blank v w cs)

/-- A name and a value can be told from their assignment, whatever the name is. -/
theorem assignment_inj (h : assignment cs v = assignment ds w) :
    cs = ds ∧ v.writeCompact = w.writeCompact := by
  unfold assignment at h
  have hnames : cs = ds := by
    rcases List.append_eq_append_iff.1 h with ⟨as, rfl, has⟩ | ⟨as, rfl, has⟩
    · rw [nil_of_assignment has, List.append_nil]
    · rw [nil_of_assignment has, List.append_nil]
  subst hnames
  exact ⟨rfl, by simpa using h⟩

end IndexMapping.Json
