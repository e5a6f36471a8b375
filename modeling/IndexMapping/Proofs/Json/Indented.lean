import IndexMapping.Error
import IndexMapping.Json.Bytes
import IndexMapping.Proofs.Json.Reading
import IndexMapping.Proofs.Json.Spacing
import IndexMapping.Proofs.Text.Utf8

/-! Indented texts. Each line has a tab for each bracket that is open at its start, and a text is
indented as itself once it has been. -/

namespace IndexMapping.Json

open Place (outside inside escaped)

/-! ### Lines -/

/-- The line starts with a tab for each open bracket but the one that its first character closes. -/
def Aligned (opened : Nat) (line : List Char) : Prop :=
  ∃ tabs c rest, line = List.replicate tabs '\t' ++ c :: rest ∧ c ≠ '\t' ∧
    tabs + (closes c).toNat = opened

/-- Every line that starts within the text is aligned. -/
def Lined (s : Spot) (t : List Char) : Prop :=
  ∀ before line, t = before ++ '\n' :: line → Aligned (s.run before).opened line

section lines

variable {s : Spot} {t u line : List Char} {n : Nat}

theorem Aligned.append (h : Aligned n line) (u : List Char) : Aligned n (line ++ u) := by
  obtain ⟨tabs, c, rest, rfl, hc, hn⟩ := h
  exact ⟨tabs, c, rest ++ u, by simp, hc, hn⟩

theorem Lined.append (ht : Lined s t) (hu : Lined (s.run t) u) : Lined s (t ++ u) := by
  intro before line heq
  rcases List.append_eq_append_iff.1 heq with ⟨as, rfl, has⟩ | ⟨as, rfl, has⟩
  · rw [Spot.run_append]
    exact hu as line has
  · cases as with
    | nil =>
      rw [List.append_nil] at hu
      exact hu [] line has.symm
    | cons c as =>
      obtain ⟨rfl, rfl⟩ := List.cons.inj has
      exact (ht before as rfl).append u

theorem lined_of_notMem (h : '\n' ∉ t) : Lined s t := by
  rintro before line rfl
  simp at h

theorem Spot.after_newline (s : Spot) : (s.after '\n').opened = s.opened := by
  simp [after, opens, closes]

theorem Lined.newline (h : Aligned s.opened t) (ht : Lined (s.after '\n') t) :
    Lined s ('\n' :: t) := by
  intro before line heq
  cases before with
  | nil =>
    obtain ⟨-, rfl⟩ := List.cons.inj heq
    exact h
  | cons c before =>
    obtain ⟨rfl, htext⟩ := List.cons.inj heq
    exact ht before line htext

/-- A text that stands on a line of its own or, with more brackets open, on several lines. -/
structure Placed (n : Nat) (t : List Char) : Prop where
  run : (Spot.mk outside n).run t = ⟨outside, n⟩
  lines : Lined ⟨outside, n⟩ t
  head : ∃ c u, t = c :: u ∧ c ≠ '\t' ∧ closes c = false

theorem lineStart_tab (n : Nat) : lineStart ['\t'] n = '\n' :: List.replicate n '\t' := by
  simp [lineStart]

theorem blank_tab : Blank ['\t'] := List.forall_mem_singleton.2 rfl

theorem Lined.after_lineStart (ht : Lined ⟨outside, n⟩ t) {tabs : Nat} {c : Char}
    (hhead : t = c :: u) (hc : c ≠ '\t') (hn : tabs + (closes c).toNat = n) :
    Lined ⟨outside, n⟩ (lineStart ['\t'] tabs ++ t) := by
  have hblank : Blank (List.replicate tabs '\t') := fun c hc => List.eq_of_mem_replicate hc ▸ rfl
  have hnone : '\n' ∉ List.replicate tabs '\t' := fun h =>
    absurd (List.eq_of_mem_replicate h) (by decide)
  rw [lineStart_tab, List.cons_append]
  refine .newline ⟨tabs, c, u, by rw [hhead], hc, hn⟩ ?_
  refine Lined.append (lined_of_notMem hnone) ?_
  rw [show (Spot.mk outside n).after '\n' = ⟨outside, n⟩ from rfl, (Passes.blank hblank).run]
  exact ht

theorem lined_joined {ts : List (List Char)} (h : ∀ t ∈ ts, Placed n t) (first : Bool) :
    Lined ⟨outside, n⟩ (joined (lineStart ['\t'] n) first ts) := by
  induction ts generalizing first with
  | nil => exact lined_of_notMem List.not_mem_nil
  | cons t ts ih =>
    obtain ⟨ht, hts⟩ := List.forall_mem_cons.1 h
    obtain ⟨c, u, hhead, hc, hopen⟩ := ht.head
    have hcomma : Lined ⟨outside, n⟩ (if first then [] else [',']) ∧
        (Spot.mk outside n).run (if first then [] else [',']) = ⟨outside, n⟩ := by
      cases first <;> exact ⟨lined_of_notMem (by decide), rfl⟩
    have hline := ht.lines.after_lineStart hhead hc (by rw [hopen]; rfl)
    have hlead := (Passes.blank (blank_lineStart blank_tab n)).run n
    rw [joined, List.append_assoc, List.append_assoc]
    refine hcomma.1.append ?_
    rw [hcomma.2, ← List.append_assoc]
    refine hline.append ?_
    rw [Spot.run_append, hlead, ht.run]
    exact ih hts false

end lines

/-! ### Values -/

variable {n : Nat} {v : Json}

/-- A compact text stands on one line. -/
theorem placed_compact (v : Json) (n : Nat) : Placed n v.writeCompact := by
  obtain ⟨c, u, htext, hkind⟩ := exists_head v
  have hne : ∀ d, kindOf d = 6 → c ≠ d := by
    rintro d hd rfl
    exact absurd (hd ▸ hkind ▸ v.kind_lt) (by decide)
  have hopen : closes c = false := by simp [closes, hne ']' rfl, hne '\x7d' rfl]
  exact ⟨(written_compact v).passes.run n, lined_of_notMem (newline_notMem (scan_writeCompact v)),
    c, u, htext, hne '\t' rfl, hopen⟩

theorem passes_indented (n : Nat) (v : Json) :
    Passes (writeIndented ['\t'] n v) v.writeCompact :=
  (written_indented blank_tab n v).passes

theorem placed_member (name : String) (h : Placed n (writeIndented ['\t'] n v)) :
    Placed n (memberText [' '] name (writeIndented ['\t'] n v)) := by
  have hname : '\n' ∉ writeString name := newline_notMem (scan_string name)
  have hcolon : '\n' ∉ [':', ' '] := by decide
  refine ⟨((passes_indented n v).member blank_space name).run n, ?_, '"', _, rfl, by decide, rfl⟩
  have htext : memberText [' '] name (writeIndented ['\t'] n v) =
      writeString name ++ ([':', ' '] ++ writeIndented ['\t'] n v) := by simp [memberText]
  rw [htext]
  refine (lined_of_notMem hname).append ?_
  rw [(Passes.string name).run]
  exact (lined_of_notMem hcolon).append h.lines

/-- The parts of a bracket stand on lines of their own, one level further in than its end. -/
theorem placed_bracket {o c : Char} (ho : o = '[' ∨ o = '\x7b') (hc : c = ']' ∨ c = '\x7d')
    {ts : List (List Char)} {u : List Char} (h : ∀ t ∈ ts, Placed (n + 1) t)
    (hpasses : Passes (joined (lineStart ['\t'] (n + 1)) true ts) u) :
    Placed n (o :: joined (lineStart ['\t'] (n + 1)) true ts ++ lineStart ['\t'] n ++ [c]) := by
  have hlead := Passes.blank (blank_lineStart blank_tab n)
  have hopen : (Spot.mk outside n).run [o] = ⟨outside, n + 1⟩ := by rcases ho with rfl | rfl <;> rfl
  have hclose : closes c = true := by rcases hc with rfl | rfl <;> rfl
  have ho' : '\n' ∉ [o] := by rcases ho with rfl | rfl <;> decide
  have hc' : '\n' ∉ [c] := by rcases hc with rfl | rfl <;> decide
  have htab : c ≠ '\t' := by rcases hc with rfl | rfl <;> decide
  refine ⟨((hpasses.append hlead).bracket ho hc).run n, ?_, o, _, rfl, ?_, ?_⟩
  · have hend : Lined ⟨outside, n + 1⟩ (lineStart ['\t'] n ++ [c]) :=
      (lined_of_notMem hc').after_lineStart rfl htab (by rw [hclose]; rfl)
    rw [List.append_assoc, ← List.singleton_append, List.append_assoc]
    refine (lined_of_notMem ho').append ?_
    rw [hopen]
    refine (lined_joined h true).append ?_
    rw [hpasses.run]
    exact hend
  · rcases ho with rfl | rfl <;> decide
  · rcases ho with rfl | rfl <;> rfl

theorem placed_indented (v : Json) (n : Nat) : Placed n (writeIndented ['\t'] n v) := by
  induction v using induction generalizing n with
  | null => exact placed_compact null n
  | bool b => exact placed_compact (bool b) n
  | number m => exact placed_compact (number m) n
  | string s => exact placed_compact (string s) n
  | array xs ih =>
    cases xs with
    | nil => exact placed_compact (array []) n
    | cons x xs =>
      have hpasses := Passes.joined (blank_lineStart blank_tab (n + 1)) (x :: xs)
        (fun y _ => passes_indented (n + 1) y) true
      have hitems := placed_bracket (.inl rfl) (.inl rfl)
        (List.forall_mem_map.2 fun y hy => ih y hy (n + 1)) hpasses
      rwa [← indentedItems_eq] at hitems
  | object ms ih =>
    cases ms with
    | nil => exact placed_compact (object []) n
    | cons m ms =>
      have hpasses := Passes.joined (blank_lineStart blank_tab (n + 1)) (m :: ms)
        (fun m _ => (passes_indented (n + 1) m.2).member blank_space m.1) true
      have hmembers := placed_bracket (.inr rfl) (.inr rfl)
        (List.forall_mem_map.2 fun m hm => placed_member m.1 (ih m hm (n + 1))) hpasses
      rwa [← indentedMembers_eq] at hmembers

/-! ### Indenting -/

theorem bare_indented (v : Json) : Spot.start.bare (v.indented "\t").toList = v.writeCompact := by
  rw [indented, String.toList_ofList]
  exact (passes_indented 0 v).bare 0

/-- A line starts at the start of the text or after a line feed. -/
theorem aligned_indented (v : Json) {before line : List Char}
    (h : (v.indented "\t").toList = before ++ line)
    (hstart : before = [] ∨ ∃ b, before = b ++ ['\n']) :
    Aligned (Spot.start.run before).opened line := by
  have hplaced := placed_indented v 0
  rw [indented, String.toList_ofList] at h
  rcases hstart with rfl | ⟨b, rfl⟩
  · obtain ⟨c, u, htext, hc, hopen⟩ := hplaced.head
    refine ⟨0, c, u, ?_, hc, by rw [hopen]; rfl⟩
    rw [List.nil_append] at h
    rw [← h]
    exact htext
  · rw [Spot.run_append]
    show Aligned ((Spot.start.run b).after '\n').opened line
    rw [Spot.after_newline]
    exact hplaced.lines b line (by simpa using h)

theorem exists_parse_of_parseBytes {bytes : List UInt8} {v : Json} (h : parseBytes bytes = .ok v) :
    ∃ text, parse text = .ok v := by
  unfold parseBytes at h
  split at h
  · exact ⟨_, h⟩
  · cases h

theorem parseBytes_encode (text : String) :
    parseBytes (Text.Utf8.encode text) = parse text := by
  rw [parseBytes, Text.Utf8.decode?_encode]

/-- A value without floats that some bytes hold is read back from its indented text. -/
theorem parseBytes_indented {bytes : List UInt8} {v : Json} (h : parseBytes bytes = .ok v)
    (hv : v.Whole) : parseBytes (Text.Utf8.encode (v.indented "\t")) = .ok v := by
  obtain ⟨text, htext⟩ := exists_parse_of_parseBytes h
  rw [parseBytes_encode]
  exact (parse_written (written_indented blank_tab 0 v) (plain_of_parse htext hv)).1
    (depth_le_of_parse htext)

/-- Indenting only changes the blanks of a text. It gives each line a tab for each bracket that is
open there. Without floats, the value is read back and its text is indented as it is. Bytes that are
no JSON are refused. -/
theorem indentBytes_outcome (bytes : List UInt8) :
    (∀ v, parseBytes bytes = .ok v →
      ∃ out, (indentBytes bytes).mapError Error.formatting = .ok out ∧
        Spot.start.bare out.toList = v.writeCompact ∧
        (∀ before line, out.toList = before ++ line →
          (before = [] ∨ ∃ b, before = b ++ ['\n']) →
            Aligned (Spot.start.run before).opened line) ∧
        (v.Whole → parseBytes (Text.Utf8.encode out) = .ok v ∧
          (indentBytes (Text.Utf8.encode out)).mapError Error.formatting = .ok out)) ∧
    ∀ e, parseBytes bytes = .error e →
      (indentBytes bytes).mapError Error.formatting = .error (.formatting e) := by
  refine ⟨fun v hv => ⟨v.indented "\t", ?_, bare_indented v, fun _ _ => aligned_indented v,
    fun hwhole => ⟨parseBytes_indented hv hwhole, ?_⟩⟩, fun e he => ?_⟩
  · rw [indentBytes, hv]
    rfl
  · rw [indentBytes, parseBytes_indented hv hwhole]
    rfl
  · rw [indentBytes, he]
    rfl

/-- Members of one name, empty brackets, and a string with a quote, a bracket, a blank and a tab. -/
def nestedText : String := "\x7b\"b\":-1, \"a\" :\x7b\x7d,\"b\":[\"\\\" ]\\t\", [ ], 2]\x7d"

def nestedValue : Json :=
  .object [("b", .array [.string "\" ]\t", .array [], .number (.integer 2)]), ("a", .object [])]

def nestedUpper : String := "\x7b\n\t\"b\": [\n\t\t\"\\\" ]\\t\",\n\t\t[],\n\t\t2\n"

def nestedLower : String := "\t],\n\t\"a\": \x7b\x7d\n\x7d"

theorem indentBytes_outcome_nested :
    (parseBytes (Text.Utf8.encode nestedText) = .ok nestedValue ∧ nestedValue.Whole ∧
      ∃ out, (indentBytes (Text.Utf8.encode nestedText)).mapError Error.formatting = .ok out ∧
        Spot.start.bare out.toList = nestedValue.writeCompact ∧
        out.toList = nestedUpper.toList ++ nestedLower.toList ∧
        Aligned (Spot.start.run nestedUpper.toList).opened nestedLower.toList ∧
        parseBytes (Text.Utf8.encode out) = .ok nestedValue ∧
        (indentBytes (Text.Utf8.encode out)).mapError Error.formatting = .ok out) ∧
    ∃ e, parseBytes (Text.Utf8.encode "[1") = .error e ∧
      (indentBytes (Text.Utf8.encode "[1")).mapError Error.formatting = .error (.formatting e) := by
  have hparse : parseBytes (Text.Utf8.encode nestedText) = .ok nestedValue := by
    rw [parseBytes_encode]
    rfl
  have hitems : Whole (.array [.string "\" ]\t", .array [], .number (.integer 2)]) :=
    .array <| List.forall_mem_cons.2 ⟨.string _, List.forall_mem_cons.2
      ⟨.array (by simp), List.forall_mem_singleton.2 (.integer 2)⟩⟩
  have hwhole : nestedValue.Whole :=
    .object <| List.forall_mem_cons.2 ⟨hitems, List.forall_mem_singleton.2 (.object (by simp))⟩
  obtain ⟨e, he⟩ : ∃ e, parseBytes (Text.Utf8.encode "[1") = .error e := by
    rw [parseBytes_encode]
    exact ⟨_, rfl⟩
  obtain ⟨out, hout, hbare, hlines, hread⟩ :=
    (indentBytes_outcome (Text.Utf8.encode nestedText)).1 nestedValue hparse
  have htext : out.toList = nestedUpper.toList ++ nestedLower.toList := by
    rw [indentBytes, hparse] at hout
    cases hout
    rfl
  have hstart : nestedUpper.toList = [] ∨ ∃ b, nestedUpper.toList = b ++ ['\n'] :=
    .inr ⟨nestedUpper.toList.dropLast, rfl⟩
  obtain ⟨hagain, hsame⟩ := hread hwhole
  exact ⟨⟨hparse, hwhole, out, hout, hbare, htext, hlines _ _ htext hstart, hagain, hsame⟩,
    e, he, (indentBytes_outcome (Text.Utf8.encode "[1")).2 e he⟩

end IndexMapping.Json
