import IndexMapping.Proofs.Flat.Difference
import IndexMapping.Proofs.Json.Quotes
import IndexMapping.Proofs.Text.LineDiff

/-! The line diff of two flat views. A flat view can be told from its text as long as its paths stay
on one line, so that the diff is empty if and only if the views are identical. The comparison asks
for less: it does not look at the order of members in arrays that are kept, nor at the sign of
zero. -/

namespace IndexMapping

/-! ### Texts of flat views -/

/-- No path goes over the end of a line. -/
def FlatMap.Unbroken (flat : FlatMap) : Prop := ∀ e ∈ flat.toList, '\n' ∉ e.1.toList

instance (flat : FlatMap) : Decidable flat.Unbroken :=
  inferInstanceAs (Decidable (∀ e ∈ flat.toList, '\n' ∉ e.1.toList))

theorem line_inj {x y r r' : List Char} (hx : '\n' ∉ x) (hy : '\n' ∉ y)
    (h : x ++ '\n' :: r = y ++ '\n' :: r') : x = y ∧ r = r' := by
  have hprefix : ∀ {x y as r r' : List Char}, '\n' ∉ y → y = x ++ as →
      '\n' :: r = as ++ '\n' :: r' → as = [] := by
    rintro x y as r r' hy rfl has
    cases as with
    | nil => rfl
    | cons a as =>
      rw [← (List.cons.inj has).1] at hy
      exact absurd (List.mem_append_right x List.mem_cons_self) hy
  rcases List.append_eq_append_iff.1 h with ⟨as, hsplit, has⟩ | ⟨as, hsplit, has⟩
  · obtain rfl := hprefix hy hsplit has
    rw [List.append_nil] at hsplit
    exact ⟨hsplit.symm, (List.cons.inj has).2⟩
  · obtain rfl := hprefix hx hsplit has
    rw [List.append_nil] at hsplit
    exact ⟨hsplit, (List.cons.inj has).2.symm⟩

/-- Lines can be told from the text that they make up. -/
theorem lines_inj {xs ys : List (List Char)} (hxs : ∀ x ∈ xs, '\n' ∉ x) (hys : ∀ y ∈ ys, '\n' ∉ y)
    (h : xs.flatMap (· ++ ['\n']) = ys.flatMap (· ++ ['\n'])) : xs = ys := by
  induction xs generalizing ys with
  | nil =>
    cases ys with
    | nil => rfl
    | cons y ys => simp at h
  | cons x xs ih =>
    cases ys with
    | nil => simp at h
    | cons y ys =>
      obtain ⟨hx, hxs'⟩ := List.forall_mem_cons.1 hxs
      obtain ⟨hy, hys'⟩ := List.forall_mem_cons.1 hys
      simp only [List.flatMap_cons, List.append_assoc, List.singleton_append] at h
      obtain ⟨rfl, hrest⟩ := line_inj hx hy h
      rw [ih hxs' hys' hrest]

/-- Entries can be told from their assignments. -/
theorem entries_inj {es fs : List (String × Json)} (hes : ∀ e ∈ es, e.2.Regular)
    (hfs : ∀ f ∈ fs, f.2.Regular)
    (h : (es.map fun e => Json.assignment e.1.toList e.2) =
      fs.map fun f => Json.assignment f.1.toList f.2) : es = fs := by
  induction es generalizing fs with
  | nil => exact (List.map_eq_nil_iff.1 h.symm).symm
  | cons e es ih =>
    obtain ⟨f, fs, rfl, hef, hrest⟩ := List.map_eq_cons_iff.1 h.symm
    obtain ⟨he, hes⟩ := List.forall_mem_cons.1 hes
    obtain ⟨hf, hfs⟩ := List.forall_mem_cons.1 hfs
    obtain ⟨hpath, htext⟩ := Json.assignment_inj hef
    have hvalue : f.2 = e.2 := Json.eq_of_compact hf he (congrArg String.ofList htext)
    rw [ih hes hfs hrest.symm, Prod.ext (String.toList_inj.1 hpath) hvalue]

namespace FlatMap

variable {e a : FlatMap}

theorem toList_text (flat : FlatMap) : (text flat).toList =
    (flat.toList.map fun e => Json.assignment e.1.toList e.2).flatMap (· ++ ['\n']) := by
  have hentries : ∀ es : List (String × Json),
      (String.join (es.map fun e => e.1 ++ " = " ++ e.2.compact ++ "\n")).toList =
        (es.map fun e => Json.assignment e.1.toList e.2).flatMap (· ++ ['\n']) := by
    intro es
    induction es with
    | nil => rfl
    | cons e es ih =>
      rw [List.map_cons, String.join_cons, String.toList_append, ih, List.map_cons,
        List.flatMap_cons]
      simp [Json.assignment, Json.compact]
  exact hentries flat.toList

/-- Views are identical if they have one text and their paths stay on one line. -/
theorem text_inj (he : ∀ x ∈ e.toList, x.2.Regular) (ha : ∀ x ∈ a.toList, x.2.Regular)
    (hepaths : Unbroken e) (hapaths : Unbroken a) : text e = text a ↔ e = a := by
  refine ⟨fun h => ?_, congrArg text⟩
  have hlines : ∀ {flat : FlatMap}, Unbroken flat →
      ∀ l ∈ flat.toList.map fun e => Json.assignment e.1.toList e.2, '\n' ∉ l := by
    intro flat hflat
    refine List.forall_mem_map.2 fun e he => ?_
    have hvalue := Json.newline_notMem (Json.scan_writeCompact e.2)
    simp [Json.assignment, hflat e he, hvalue]
  have htext := congrArg String.toList h
  rw [toList_text, toList_text] at htext
  exact SortedMap.ext_toList (entries_inj he ha (lines_inj (hlines hepaths) (hlines hapaths) htext))

end FlatMap

/-! ### Documents -/

namespace Json

variable {sequences : Bool} {v w : Json} {e a : FlatMap}

theorem regular_of_flatten (hdistinct : v.Distinct) (hv : v.Regular)
    (he : v.flatten sequences = .ok e) : ∀ x ∈ e.toList, x.2.Regular := by
  intro x hx
  cases v with
  | null | bool b | number n | string s | array xs => nomatch he
  | object ms =>
    cases (flatten_object hdistinct).symm.trans he
    have hleaf := SortedMap.mem_of_get?_ofList
      ((SortedMap.find?_eq_some_iff (SortedMap.sorted _)).2 hx)
    obtain ⟨m, hm, hleaf⟩ := mem_memberLeaves_iff.1 hleaf
    exact of_leaf (fun _ => Regular.of_item) (fun _ => Regular.of_member) (hv.of_member m hm) hleaf

theorem diff_of_flatten (he : v.flatten sequences = .ok e) (ha : w.flatten sequences = .ok a) :
    ∃ d, diff sequences v w = .ok d ∧ (d = "" ↔ FlatMap.text e = FlatMap.text a) :=
  ⟨_, by rw [diff, he, ok_bind, ha, ok_bind], Text.renderEdits_between_lines⟩

/-- The diff is empty if and only if the flat views have one text, which means that they are
identical if their paths stay on one line. So it is empty whenever the documents compare as equal,
and only then, if and only if those that do have identical views. -/
theorem diff_empty_iff (hv : v.Distinct) (hw : w.Distinct) (hvfloats : v.Regular)
    (hwfloats : w.Regular) (he : v.flatten sequences = .ok e) (ha : w.flatten sequences = .ok a) :
    ∃ d c, diff sequences v w = .ok d ∧ compare sequences v w = .ok c ∧
      (d = "" ↔ FlatMap.text e = FlatMap.text a) ∧ (c.isEqual = true ↔ FlatMap.Same e a) ∧
      (e.Unbroken → a.Unbroken →
        (d = "" ↔ e = a) ∧ ((d = "" ↔ c.isEqual = true) ↔ (c.isEqual = true → e = a))) := by
  obtain ⟨d, hd, hempty⟩ := diff_of_flatten he ha
  obtain ⟨c, hc, hequal⟩ := exists_compare_iff hv hw he ha
  refine ⟨d, c, hd, hc, hempty, hequal, fun hepaths hapaths => ?_⟩
  have hidentical : d = "" ↔ e = a := by
    rw [hempty]
    exact FlatMap.text_inj (regular_of_flatten hv hvfloats he) (regular_of_flatten hw hwfloats ha)
      hepaths hapaths
  have hsame : e = a → c.isEqual = true := by
    rintro rfl
    refine hequal.2 (SortedMap.agree_iff.2 fun path => ?_)
    cases hx : e.get? path with
    | none => exact .none
    | some x => exact .some (distinct_of_flatten hv he hx).same_refl
  rw [hidentical]
  exact ⟨Iff.rfl, fun h => h.2, fun h => ⟨hsame, h⟩⟩

/-- A document with an array that is kept. -/
def kept : List (String × Json) :=
  [("a", array [object [("x", number (.integer 1)), ("y", number (.integer 2))]])]

/-- The same document with the members in the array in another order. -/
def keptReversed : List (String × Json) :=
  [("a", array [object [("y", number (.integer 2)), ("x", number (.integer 1))]])]

theorem diff_empty_iff_kept :
    parse "\x7b\"a\":[\x7b\"x\":1,\"y\":2\x7d]\x7d" = .ok (object kept) ∧
      parse "\x7b\"a\":[\x7b\"y\":2,\"x\":1\x7d]\x7d" = .ok (object keptReversed) ∧
      ∃ e a d c, (object kept).flatten true = .ok e ∧ (object keptReversed).flatten true = .ok a ∧
        diff true (object kept) (object keptReversed) = .ok d ∧
        compare true (object kept) (object keptReversed) = .ok c ∧
        (d = "" ↔ e = a) ∧ ((d = "" ↔ c.isEqual = true) ↔ (c.isEqual = true → e = a)) := by
  have hkept : parse "\x7b\"a\":[\x7b\"x\":1,\"y\":2\x7d]\x7d" = .ok (object kept) := rfl
  have hreversed : parse "\x7b\"a\":[\x7b\"y\":2,\"x\":1\x7d]\x7d" =
      .ok (object keptReversed) := rfl
  have he : (object kept).flatten true = .ok _ := rfl
  have ha : (object keptReversed).flatten true = .ok _ := rfl
  obtain ⟨d, c, hd, hc, -, -, h⟩ := diff_empty_iff (distinct_of_parse hkept)
    (distinct_of_parse hreversed) (regular_of_parse hkept) (regular_of_parse hreversed) he ha
  obtain ⟨hempty, hagree⟩ := h (by decide) (by decide)
  exact ⟨hkept, hreversed, _, _, d, c, he, ha, hd, hc, hempty, hagree⟩

/-- A name with the end of a line in it, which looks like the end of another entry. -/
def broken : List (String × Json) := [("a = 1\nb", number (.integer 2))]

def unbroken : List (String × Json) := [("a", number (.integer 1)), ("b", number (.integer 2))]

theorem diff_kept : (object kept).Distinct ∧ (object keptReversed).Distinct ∧
    diff false (object kept) (object keptReversed) =
      .ok "-a = [\x7b\"x\":1,\"y\":2\x7d]\n+a = [\x7b\"y\":2,\"x\":1\x7d]\n" ∧
    (∃ c, compare false (object kept) (object keptReversed) = .ok c ∧ c.isEqual = true) ∧
    diff false (object broken) (object unbroken) = .ok "" ∧
    ∃ c, compare false (object broken) (object unbroken) = .ok c ∧ c.isEqual = false := by
  have hequal : ∃ c, compare false (object kept) (object keptReversed) = .ok c ∧
      c.isEqual = true := ⟨_, rfl, by decide +kernel⟩
  have hdifferent : ∃ c, compare false (object broken) (object unbroken) = .ok c ∧
      c.isEqual = false := ⟨_, rfl, by decide +kernel⟩
  exact ⟨by decide, by decide, rfl, hequal, rfl, hdifferent⟩

end Json

end IndexMapping
