import IndexMapping.Proofs.Toml.Strings
import IndexMapping.Toml.Document

/-! Documents line by line. A document that consists of empty lines, headers and assignments is
read as the effects of its lines on the tables, one after the other. -/

namespace IndexMapping.Toml

variable {c d : Char} {cs rest value : List Char} {fuel : Nat} {name key : String} {v : Toml}
  {current : List String} {es : Sections}

/-! ### Keys and values -/

/-- A key that needs no quotes. -/
def Bare (key : String) : Prop := key.toList ≠ [] ∧ ∀ c ∈ key.toList, isBare c

instance (key : String) : Decidable (Bare key) :=
  decidable_of_iff (key.toList ≠ [] ∧ key.toList.all isBare) (by simp [Bare])

/-- A text of a value that may stand on a line. -/
structure Writes (value : List Char) (v : Toml) : Prop where
  starts : ∀ rest, skipBlank (value ++ rest) = value ++ rest
  read : ∀ rest, readValue depthLimit (value ++ '\n' :: rest) = some (v, '\n' :: rest)

theorem skipBlank_cons (hc : isBlank c = false) : skipBlank (c :: cs) = c :: cs :=
  List.dropWhile_cons_of_neg (by simp [hc])

theorem Bare.exists_cons (h : Bare key) : ∃ c cs, key.toList = c :: cs ∧ isBare c := by
  obtain ⟨hne, hbare⟩ := h
  obtain ⟨c, cs, hkey⟩ := List.exists_cons_of_ne_nil hne
  exact ⟨c, cs, hkey, hbare c (hkey ▸ List.mem_cons_self)⟩

theorem ne_of_isBare (hc : isBare c) (hd : isBare d = false) : c ≠ d := by
  rintro rfl
  rw [hd] at hc
  cases hc

theorem isBlank_of_isBare (h : isBare c) : isBlank c = false := by
  simp [isBlank, ne_of_isBare h (d := ' ') (by decide), ne_of_isBare h (d := '\t') (by decide)]

theorem skipBlank_bare (h : Bare key) : skipBlank (key.toList ++ rest) = key.toList ++ rest := by
  obtain ⟨c, cs, hkey, hc⟩ := h.exists_cons
  rw [hkey, List.cons_append, skipBlank_cons (isBlank_of_isBare hc)]

theorem readKey_bare (h : Bare key) (hd : isBare d = false) :
    readKey (key.toList ++ d :: rest) = some (key, d :: rest) := by
  have hstart : ∀ c more, isBare c = false → key.toList ++ d :: rest ≠ c :: more := by
    obtain ⟨e, cs, hkey, he⟩ := h.exists_cons
    intro c more hc heq
    rw [hkey, List.cons_append] at heq
    exact ne_of_isBare he hc (List.cons.inj heq).1
  have htake : (key.toList ++ d :: rest).takeWhile isBare = key.toList := by
    rw [List.takeWhile_append_of_pos h.2, List.takeWhile_cons_of_neg (by simp [hd]),
      List.append_nil]
  have hempty : key.toList.isEmpty = false := by simpa using h.1
  rw [readKey]
  · simp only [htake, hempty, Bool.false_eq_true, if_false, List.drop_left, String.ofList_toList]
  · exact fun more heq => hstart '"' more (by decide) heq
  · exact fun more heq => hstart '\x27' more (by decide) heq

theorem readKeys_bare {following : List Char} (h : Bare key) (hd : isBare d = false)
    (hskip : skipBlank (d :: rest) = c :: following) (hdot : c ≠ '.') :
    readKeys (fuel + 1) (key.toList ++ d :: rest) = some ([], key, c :: following) := by
  simp [readKeys, skipBlank_bare h, readKey_bare h hd, hskip, hdot]

theorem readHeader_bare (h : Bare name) :
    readHeader (name.toList ++ ']' :: rest) = some ([name], ']' :: rest) := by
  have hkeys : readKeys keyLimit (name.toList ++ ']' :: rest) = some ([], name, ']' :: rest) :=
    readKeys_bare h (by decide) rfl (by decide)
  simp [readHeader, hkeys]

theorem readPair_bare (h : Bare key) (hv : Writes value v) :
    readPair (readValue depthLimit) (key.toList ++ ' ' :: '=' :: ' ' :: (value ++ '\n' :: rest)) =
      some (([], key, v), '\n' :: rest) := by
  have hkeys : readKeys keyLimit (key.toList ++ ' ' :: '=' :: ' ' :: (value ++ '\n' :: rest)) =
      some ([], key, '=' :: ' ' :: (value ++ '\n' :: rest)) :=
    readKeys_bare h (by decide) rfl (by decide)
  have hskip : skipBlank (' ' :: (value ++ '\n' :: rest)) = value ++ '\n' :: rest :=
    hv.starts _
  simp [readPair, hkeys, hskip, hv.read]

/-! ### Lines -/

inductive Line where
  | empty
  | header (name : String)
  /-- A key, the text of its value, and the value. -/
  | assignment (key : String) (value : List Char) (v : Toml)

namespace Line

def text : Line → List Char
  | empty => ['\n']
  | header name => '[' :: name.toList ++ [']', '\n']
  | assignment key value _ => key.toList ++ [' ', '=', ' '] ++ value ++ ['\n']

/-- Keys need no quotes, and values are what their texts say. -/
def Valid : Line → Prop
  | empty => True
  | header name => Bare name
  | assignment key value v => Bare key ∧ Writes value v

/-- The current table and all tables after a line. -/
def apply : List String × Sections → Line → Option (List String × Sections)
  | (current, es), empty => some (current, es)
  | (_, es), header name => (Section.openTable [name] es).map ([name], ·)
  | (current, es), assignment key _ v =>
    (Section.within (Section.assign key v []) current es).map (current, ·)

end Line

theorem readLines_header (h : Bare name) :
    readLines (fuel + 1) current es ('[' :: (name.toList ++ ']' :: '\n' :: rest)) =
      (Section.openTable [name] es).bind fun es => readLines fuel [name] es rest := by
  have hskip : skipBlank ('[' :: (name.toList ++ ']' :: '\n' :: rest)) =
      '[' :: (name.toList ++ ']' :: '\n' :: rest) := skipBlank_cons (by decide)
  have hsingle : ∀ more, '[' :: (name.toList ++ ']' :: '\n' :: rest) ≠ '[' :: '[' :: more := by
    obtain ⟨c, cs, hname, hc⟩ := h.exists_cons
    intro more heq
    rw [hname, List.cons_append] at heq
    exact ne_of_isBare hc (by decide) (List.cons.inj (List.cons.inj heq).2).1
  rw [readLines, hskip]
  split
  next heq => cases heq
  next more heq => exact absurd heq (hsingle more)
  next more _ heq =>
    obtain ⟨-, rfl⟩ := List.cons.inj heq
    rw [readHeader_bare h]
    rfl
  next c more _ hopen heq => exact (hopen (List.cons.inj heq).1.symm).elim

theorem readLines_assignment (h : Bare key) (hv : Writes value v) :
    readLines (fuel + 1) current es
        (key.toList ++ ' ' :: '=' :: ' ' :: (value ++ '\n' :: rest)) =
      (Section.within (Section.assign key v []) current es).bind fun es =>
        readLines fuel current es rest := by
  have hpair : readPair (readValue depthLimit)
      (key.toList ++ ' ' :: '=' :: ' ' :: (value ++ '\n' :: rest)) =
        some (([], key, v), '\n' :: rest) := readPair_bare h hv
  obtain ⟨c, cs, hkey, hc⟩ := h.exists_cons
  have hopen : c ≠ '[' := ne_of_isBare hc (by decide)
  have hmark : c ≠ '#' := ne_of_isBare hc (by decide)
  have hline : c ≠ '\n' := ne_of_isBare hc (by decide)
  have hreturn : c ≠ '\r' := ne_of_isBare hc (by decide)
  rw [readLines, skipBlank_bare h]
  rw [hkey, List.cons_append] at hpair ⊢
  split
  next heq => cases heq
  next more heq => exact absurd (List.cons.inj heq).1 hopen
  next more _ heq => exact absurd (List.cons.inj heq).1 hopen
  next c' more _ _ heq =>
    obtain ⟨rfl, rfl⟩ := List.cons.inj heq
    rw [hpair, if_neg (by simp [hmark, hline, hreturn])]
    rfl

theorem readLines_line {line : Line} (h : line.Valid) :
    readLines (fuel + 1) current es (line.text ++ rest) =
      (line.apply (current, es)).bind fun (current, es) => readLines fuel current es rest := by
  cases line with
  | empty => rfl
  | header name =>
    simp only [Line.text, List.cons_append, List.append_assoc, List.nil_append]
    rw [readLines_header h, Line.apply, Option.bind_map]
    rfl
  | assignment key value v =>
    obtain ⟨hkey, hvalue⟩ := h
    simp only [Line.text, List.cons_append, List.append_assoc, List.nil_append]
    rw [readLines_assignment hkey hvalue, Line.apply, Option.bind_map]
    rfl

theorem length_le_flatMap_text (lines : List Line) :
    lines.length ≤ (lines.flatMap Line.text).length := by
  induction lines with
  | nil => exact Nat.zero_le _
  | cons line lines ih =>
    have hline : 0 < line.text.length := by cases line <;> simp [Line.text]
    rw [List.flatMap_cons, List.length_append, List.length_cons]
    omega

/-- The effects of all lines. -/
theorem readLines_lines {lines : List Line} (h : ∀ line ∈ lines, line.Valid)
    (hfuel : lines.length < fuel) :
    readLines fuel current es (lines.flatMap Line.text) =
      (lines.foldlM Line.apply (current, es)).map (·.2) := by
  induction lines generalizing fuel current es with
  | nil =>
    obtain ⟨fuel, rfl⟩ := Nat.exists_eq_add_one_of_ne_zero (Nat.ne_zero_of_lt hfuel)
    rfl
  | cons line lines ih =>
    obtain ⟨hline, hlines⟩ := List.forall_mem_cons.1 h
    obtain ⟨fuel, rfl⟩ := Nat.exists_eq_add_one_of_ne_zero (Nat.ne_zero_of_lt hfuel)
    rw [List.flatMap_cons, readLines_line hline, List.foldlM_cons, Option.bind_eq_bind,
      Option.map_bind]
    exact Option.bind_congr fun _ _ => ih hlines (by simpa using hfuel)

end IndexMapping.Toml
