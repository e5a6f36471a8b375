import IndexMapping.Proofs.Flat.Contents

/-! Arrays as leaves and arrays by their elements. The view in which each array is one leaf says
all that the other view does: flattening the arrays in it gives the other view. Without dots in
names nothing lands on a path that is taken. -/

namespace IndexMapping

/-- The leaves that an entry stands for once arrays are flattened: those of its elements, if it is
an array, and else itself. -/
def FlatMap.expansion : String × Json → List (String × Json)
  | (path, .array xs) => Json.elementLeaves true path 0 xs
  | entry => [entry]

/-- The second view is the first one with the arrays in it flattened. -/
structure FlatMap.IsExpansion (whole view : FlatMap) : Prop where
  /-- It has the leaves that the entries of the first one stand for. -/
  entries : view.toList.Perm (whole.toList.flatMap expansion)
  /-- No two of them are at one path. -/
  paths : ((whole.toList.flatMap expansion).map (·.1)).Nodup
  /-- Flattening an array of the first view adds the leaves that it stands for. -/
  arrays : ∀ path xs, (path, .array xs) ∈ whole.toList → ∀ flat,
    Tree.addElements true path 0 flat xs = flat.insertAll (expansion (path, .array xs))

namespace Json

open FlatMap (expansion)

variable {path : String} {place : String → String} {v w : Json} {l : String × Json}
  {ms ns : List (String × Json)}

/-! ### Leaves -/

theorem memberLeaves_true_eq (h : ∀ m ∈ ms, ∀ path,
      m.2.leaves true path = (m.2.leaves false path).flatMap expansion) :
    memberLeaves true place ms = (memberLeaves false place ms).flatMap expansion := by
  induction ms with
  | nil => rfl
  | cons m ms ih =>
    obtain ⟨n, v⟩ := m
    obtain ⟨hv, hms⟩ := List.forall_mem_cons.1 h
    rw [memberLeaves, memberLeaves, List.flatMap_append, hv, ih hms]

theorem leaves_true_eq : v.leaves true path = (v.leaves false path).flatMap expansion := by
  induction v using Json.induction generalizing path with
  | null | bool b | number n | string s => rfl
  | array xs ih => exact (List.flatMap_singleton _ _).symm
  | object ms ih => exact memberLeaves_true_eq fun m hm _ => ih m hm

theorem rootLeaves_true_eq :
    memberLeaves true place ms = (memberLeaves false place ms).flatMap expansion :=
  memberLeaves_true_eq fun _ _ _ => leaves_true_eq

/-- Equal entries at one path stand for equal leaves. -/
theorem exists_expansion_of_same (h : v.same w = true) (hl : l ∈ expansion (path, v)) :
    ∃ x, (l.1, x) ∈ expansion (path, w) ∧ l.2.same x = true := by
  cases v with
  | null =>
    obtain rfl := same_null_iff.1 h
    obtain rfl := List.mem_singleton.1 hl
    exact ⟨_, List.mem_singleton_self _, h⟩
  | bool b =>
    obtain rfl := same_bool_iff.1 h
    obtain rfl := List.mem_singleton.1 hl
    exact ⟨_, List.mem_singleton_self _, h⟩
  | number n =>
    obtain ⟨m, rfl, -⟩ := same_number_iff.1 h
    obtain rfl := List.mem_singleton.1 hl
    exact ⟨_, List.mem_singleton_self _, h⟩
  | string s =>
    obtain rfl := same_string_iff.1 h
    obtain rfl := List.mem_singleton.1 hl
    exact ⟨_, List.mem_singleton_self _, h⟩
  | array xs =>
    obtain ⟨ys, rfl, -⟩ := same_array_iff.1 h
    have hleaf : l ∈ (Json.array xs).leaves true path := hl
    exact exists_leaf_of_same h hleaf
  | object ms =>
    obtain ⟨ns, rfl, -⟩ := same_object_iff.1 h
    obtain rfl := List.mem_singleton.1 hl
    exact ⟨_, List.mem_singleton_self _, h⟩

/-! ### Views -/

theorem DotlessNames.outside (h : v.DotlessNames true) : v.DotlessNames false := by
  induction h with
  | null => exact .null
  | bool b => exact .bool b
  | number n => exact .number n
  | string s => exact .string s
  | array _ _ => exact .array (by simp)
  | object names _ ih => exact .object names ih

theorem isExpansion_ofList (hms : (object ms).Distinct) (hdot : (object ms).DotlessNames true) :
    FlatMap.IsExpansion (.ofList (memberLeaves false id ms))
      (.ofList (memberLeaves true id ms)) := by
  have hview := nodup_rootLeaves hms hdot
  have hentries := SortedMap.perm_ofList (nodup_rootLeaves hms hdot.outside)
  rw [rootLeaves_true_eq] at hview ⊢
  exact ⟨(SortedMap.perm_ofList hview).trans (hentries.symm.flatMap_right _),
    ((hentries.flatMap_right _).map _).nodup_iff.2 hview,
    fun path xs _ flat => Tree.addElements_eq fun _ _ _ _ => Tree.addJson_eq⟩

theorem exists_elementLeaf (h : ∀ l ∈ memberLeaves false place ms,
      ∃ y, (l.1, y) ∈ memberLeaves false place ns ∧ l.2.same y = true)
    (hl : l ∈ memberLeaves true place ms) :
    ∃ y, (l.1, y) ∈ memberLeaves true place ns ∧ l.2.same y = true := by
  rw [rootLeaves_true_eq] at hl ⊢
  obtain ⟨⟨path, v⟩, hv, hl⟩ := List.mem_flatMap.1 hl
  obtain ⟨w, hw, hvw⟩ := h _ hv
  obtain ⟨y, hy, hly⟩ := exists_expansion_of_same hvw hl
  exact ⟨y, List.mem_flatMap.2 ⟨_, hw, hy⟩, hly⟩

theorem Matches.elements (hms : (object ms).Distinct) (hns : (object ns).Distinct)
    (h : Matches (memberLeaves false id ms) (memberLeaves false id ns)) :
    Matches (memberLeaves true id ms) (memberLeaves true id ns) := by
  refine ⟨fun l hl => exists_elementLeaf h.forth hl, fun l hl => ?_⟩
  -- seen from the other side, equal leaves are equal as well
  have hback : ∀ l ∈ memberLeaves false id ns,
      ∃ x, (l.1, x) ∈ memberLeaves false id ms ∧ l.2.same x = true := by
    intro l hl
    obtain ⟨x, hx, hsame⟩ := h.back l hl
    exact ⟨x, hx, ((distinct_of_memberLeaf hms hx).of_same hsame).2⟩
  obtain ⟨x, hx, hsame⟩ := exists_elementLeaf hback hl
  exact ⟨x, hx, ((distinct_of_memberLeaf hns hl).of_same hsame).2⟩

/-- Without dots in names, at any depth, the view of an object without flattening arrays has its
leaves, the view with its arrays flattened is the expansion of that view, and no two of its leaves
are at one path. So two such objects that compare as equal without flattening arrays do so with
it. -/
theorem flatten_elements (hms : (object ms).Distinct) (hdot : (object ms).DotlessNames true) :
    ∃ whole view, (object ms).flatten false = .ok whole ∧ (object ms).flatten true = .ok view ∧
      whole.toList.Perm (memberLeaves false id ms) ∧ FlatMap.IsExpansion whole view ∧
      ∀ ns, (object ns).Distinct → (object ns).DotlessNames true →
        ∃ c c', compare false (object ms) (object ns) = .ok c ∧
          compare true (object ms) (object ns) = .ok c' ∧
          (c.isEqual = true → c'.isEqual = true) := by
  refine ⟨_, _, flatten_object hms, flatten_object hms,
    SortedMap.perm_ofList (nodup_rootLeaves hms hdot.outside), isExpansion_ofList hms hdot, ?_⟩
  intro ns hns hdot'
  obtain ⟨c, hc, hwhole⟩ :=
    exists_compare_iff hms hns (flatten_object hms) (flatten_object hns)
  obtain ⟨c', hc', hview⟩ :=
    exists_compare_iff hms hns (flatten_object hms) (flatten_object hns)
  refine ⟨c, c', hc, hc', fun hequal => hview.2 ?_⟩
  have hmatches :=
    matches_of_same hms hns hdot.outside hdot'.outside (hwhole.1 hequal)
  obtain ⟨forth, back⟩ := hmatches.elements hms hns
  exact (SortedMap.agree_ofList_iff (nodup_rootLeaves hms hdot)
    (nodup_rootLeaves hns hdot')).2 ⟨forth, back⟩

theorem flatten_elements_mixed : (object mixed).Distinct ∧ (object mixed).DotlessNames true ∧
    (object remixed).Distinct ∧ (object remixed).DotlessNames true ∧
    ∃ whole view c c', (object mixed).flatten false = .ok whole ∧
      (object mixed).flatten true = .ok view ∧
      whole.toList.Perm (memberLeaves false id mixed) ∧ FlatMap.IsExpansion whole view ∧
      compare false (object mixed) (object remixed) = .ok c ∧
      compare true (object mixed) (object remixed) = .ok c' ∧ c.isEqual = true ∧
      c'.isEqual = true := by
  have hmixed : (object mixed).Distinct := by decide
  have hremixed : (object remixed).Distinct := by decide
  have hlegible : LegibleRoot true mixed := by decide
  have hlegible' : LegibleRoot true remixed := by decide
  obtain ⟨whole, view, hwhole, hview, hleaves, hexpansion, hcompare⟩ :=
    flatten_elements hmixed hlegible.dotlessNames
  obtain ⟨c, c', hc, hc', himp⟩ := hcompare remixed hremixed hlegible'.dotlessNames
  have hsame : (object mixed).same (object remixed) = true := by decide
  obtain ⟨_, _, _, -, -, -, hc₀, hequal⟩ :=
    flattensLike_of_dotless hmixed hlegible.dotlessNames.outside hsame
  cases hc.symm.trans hc₀
  exact ⟨hmixed, hlegible.dotlessNames, hremixed, hlegible'.dotlessNames, whole, view, c, c',
    hwhole, hview, hleaves, hexpansion, hc, hc', hequal, himp hequal⟩

end Json

end IndexMapping
