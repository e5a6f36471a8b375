import IndexMapping.Proofs.Flat.Comparison
import IndexMapping.Proofs.Flat.Paths

/-! Whether the flat view depends on the order of members. It holds the last of the leaves at a
path, and each of them is the last in some order. So it is the same for all orders if and only
if leaves at one path are equal, which is sure as long as no name has a dot. -/

namespace IndexMapping

/-- The flat views have the same paths, with equal leaves. -/
def FlatMap.Same (e a : FlatMap) : Prop :=
  SortedMap.Agree (fun x y => x.same y = true) e a

namespace Json

/-- The documents have the same flat view, and compare as equal. -/
def FlattensLike (sequences : Bool) (v w : Json) : Prop :=
  ∃ e a c, v.flatten sequences = .ok e ∧ w.flatten sequences = .ok a ∧ FlatMap.Same e a ∧
    compare sequences v w = .ok c ∧ c.isEqual = true

/-- The leaves at one path are equal. -/
def Unambiguous (sequences : Bool) (ms : List (String × Json)) : Prop :=
  ∀ l ∈ memberLeaves sequences id ms, ∀ l' ∈ memberLeaves sequences id ms,
    l.1 = l'.1 → l.2.same l'.2 = true

instance (sequences : Bool) (ms : List (String × Json)) : Decidable (Unambiguous sequences ms) :=
  inferInstanceAs (Decidable (∀ l ∈ memberLeaves sequences id ms,
    ∀ l' ∈ memberLeaves sequences id ms, l.1 = l'.1 → l.2.same l'.2 = true))

variable {sequences : Bool} {path : String} {place : String → String} {l : String × Json}
  {ms ns : List (String × Json)} {v w : Json}

/-! ### Leaves of equal values -/

theorem exists_memberLeaf (h : (object ms).same (object ns) = true)
    (hleaf : ∀ m ∈ ms, ∀ w path, m.2.same w = true → l ∈ m.2.leaves sequences path →
      ∃ x, (l.1, x) ∈ w.leaves sequences path ∧ l.2.same x = true)
    (hl : l ∈ memberLeaves sequences place ms) :
    ∃ x, (l.1, x) ∈ memberLeaves sequences place ns ∧ l.2.same x = true := by
  obtain ⟨m, hm, hl⟩ := mem_memberLeaves_iff.1 hl
  obtain ⟨_, heq, -, hmem⟩ := same_object_iff.1 h
  cases heq
  obtain ⟨w, hw, hsame⟩ := hmem m hm
  obtain ⟨x, hx, hlx⟩ := hleaf m hm w _ hsame hl
  exact ⟨x, mem_memberLeaves_iff.2 ⟨_, mem_of_member? hw, hx⟩, hlx⟩

theorem exists_leaf_of_same (h : v.same w = true) (hl : l ∈ v.leaves sequences path) :
    ∃ x, (l.1, x) ∈ w.leaves sequences path ∧ l.2.same x = true := by
  induction v using Json.induction generalizing path w with
  | null =>
    obtain rfl := same_null_iff.1 h
    obtain rfl := List.mem_singleton.1 hl
    exact ⟨_, List.mem_singleton_self _, h⟩
  | bool b =>
    obtain rfl := same_bool_iff.1 h
    obtain rfl := List.mem_singleton.1 hl
    exact ⟨_, List.mem_singleton_self _, h⟩
  | number n =>
    obtain ⟨m, rfl, -⟩ := same_number_iff.1 h
    obtain rfl := List.mem_singleton.1 hl
    exact ⟨_, List.mem_singleton_self _, h⟩
  | string s =>
    obtain rfl := same_string_iff.1 h
    obtain rfl := List.mem_singleton.1 hl
    exact ⟨_, List.mem_singleton_self _, h⟩
  | array xs ih =>
    obtain ⟨ys, rfl, hlen, hxy⟩ := same_array_iff.1 h
    rw [leaves] at hl ⊢
    cases sequences with
    | true =>
      obtain ⟨i, hi, hl⟩ := mem_elementLeaves_iff.1 hl
      obtain ⟨x, hx, hsame⟩ := ih _ (List.getElem_mem hi) (hxy i hi (hlen ▸ hi)) hl
      exact ⟨x, mem_elementLeaves_iff.2 ⟨i, hlen ▸ hi, hx⟩, hsame⟩
    | false =>
      obtain rfl := List.mem_singleton.1 hl
      exact ⟨_, List.mem_singleton_self _, h⟩
  | object ms ih =>
    obtain ⟨ns, rfl, -⟩ := same_object_iff.1 h
    exact exists_memberLeaf h (fun m hm _ _ => ih m hm) hl

theorem exists_memberLeaf_of_same (h : (object ms).same (object ns) = true)
    (hl : l ∈ memberLeaves sequences place ms) :
    ∃ x, (l.1, x) ∈ memberLeaves sequences place ns ∧ l.2.same x = true :=
  exists_memberLeaf h (fun _ _ _ _ => exists_leaf_of_same) hl

/-! ### The last leaf -/

/-- Each member can come last, with an equal value. -/
theorem exists_last_member {m : String × Json} (h : Distinct (object ms)) (hm : m ∈ ms)
    (hw : m.2.same w = true) :
    ∃ before, (object ms).same (object (before ++ [(m.1, w)])) = true := by
  obtain ⟨as, bs, rfl⟩ := List.append_of_mem hm
  have hperm : (as ++ m :: bs).Perm (m :: (as ++ bs)) := List.perm_middle
  have hnames : ((as ++ bs ++ [(m.1, w)]).map (·.1)).Nodup := by
    have hlast : ((as ++ m :: bs).map (·.1)).Perm ((as ++ bs).map (·.1) ++ [m.1]) :=
      (hperm.map _).trans (List.perm_append_singleton m.1 _).symm
    rw [List.map_append, List.map_singleton]
    exact hlast.nodup h.names_nodup
  refine ⟨as ++ bs, same_object_iff.2 ⟨_, rfl, by simp, fun m' hm' => ?_⟩⟩
  simp only [member?_eq_some_iff hnames, List.mem_append, List.mem_singleton]
  rcases List.mem_cons.1 (hperm.mem_iff.1 hm') with rfl | hother
  · exact ⟨w, .inr rfl, hw⟩
  · exact ⟨m'.2, .inl (List.mem_append.1 hother), (h.of_member hm').same_refl⟩

theorem exists_last_self (hv : v.Distinct) (hself : v.leaves sequences path = [(path, v)])
    (hl : l ∈ v.leaves sequences path) :
    ∃ w, v.same w = true ∧ SortedMap.IsLast l (w.leaves sequences path) := by
  refine ⟨v, hv.same_refl, ?_⟩
  rw [hself] at hl ⊢
  obtain rfl := List.mem_singleton.1 hl
  exact SortedMap.isLast_singleton _

theorem exists_last_memberLeaf (h : Distinct (object ms))
    (hleaf : ∀ m ∈ ms, ∀ path, l ∈ m.2.leaves sequences path →
      ∃ w, m.2.same w = true ∧ SortedMap.IsLast l (w.leaves sequences path))
    (hl : l ∈ memberLeaves sequences place ms) :
    ∃ ns, (object ms).same (object ns) = true ∧
      SortedMap.IsLast l (memberLeaves sequences place ns) := by
  obtain ⟨m, hm, hl⟩ := mem_memberLeaves_iff.1 hl
  obtain ⟨w, hw, hlast⟩ := hleaf m hm _ hl
  obtain ⟨before, hsame⟩ := exists_last_member h hm hw
  refine ⟨before ++ [(m.1, w)], hsame, ?_⟩
  rw [memberLeaves_append]
  refine SortedMap.IsLast.prepend ?_ _
  rwa [memberLeaves, memberLeaves, List.append_nil]

/-- A leaf of an element stays the last one at its path: no other element has that path. -/
theorem isLast_set {xs : List Json} {i : Nat} (hi : i < xs.length)
    (hl : Tree.Below (Tree.step path (toString (0 + i))) l.1)
    (h : SortedMap.IsLast l (w.leaves true (Tree.step path (toString (0 + i))))) :
    SortedMap.IsLast l (elementLeaves true path 0 (xs.set i w)) := by
  have hindex : 0 + (xs.take i).length = 0 + i := by
    rw [List.length_take, Nat.min_eq_left (Nat.le_of_lt hi)]
  rw [List.set_eq_take_append_cons_drop, if_pos hi, elementLeaves_append, hindex, elementLeaves]
  refine (h.append fun l' hl' heq => ?_).prepend _
  obtain ⟨j, hj, hl'⟩ := mem_elementLeaves_iff.1 hl'
  have hij : 0 + i = 0 + i + 1 + j := Tree.index_eq_of_below hl (heq ▸ below_of_mem_leaves hl')
  omega

/-- Each leaf of a value is the last one at its path, for some order of the members. -/
theorem exists_last_leaf (hv : v.Distinct) (hl : l ∈ v.leaves sequences path) :
    ∃ w, v.same w = true ∧ SortedMap.IsLast l (w.leaves sequences path) := by
  induction hv generalizing path with
  | null => exact exists_last_self .null rfl hl
  | bool b => exact exists_last_self (.bool b) rfl hl
  | number n => exact exists_last_self (.number n) rfl hl
  | string s => exact exists_last_self (.string s) rfl hl
  | @array xs items ih =>
    cases sequences with
    | true =>
      obtain ⟨i, hi, hl⟩ := mem_elementLeaves_iff.1 hl
      obtain ⟨w, hw, hlast⟩ := ih _ (List.getElem_mem hi) hl
      -- the element keeps its place: elements after it have no leaf at the path of `l`
      refine ⟨array (xs.set i w), same_array_iff.2 ⟨_, rfl, by simp, fun j hj hj' => ?_⟩, ?_⟩
      · rw [List.getElem_set]
        split
        next heq =>
          subst heq
          exact hw
        next => exact (items _ (List.getElem_mem hj)).same_refl
      · exact isLast_set hi (below_of_mem_leaves hl) hlast
    | false => exact exists_last_self (.array items) rfl hl
  | @object ms names values ih =>
    obtain ⟨ns, hsame, hlast⟩ :=
      exists_last_memberLeaf (.object names values) (fun m hm _ => ih m hm) hl
    exact ⟨_, hsame, hlast⟩

/-! ### Flat views -/

theorem distinct_of_memberLeaf (h : Distinct (object ms))
    (hl : l ∈ memberLeaves sequences place ms) : l.2.Distinct := by
  obtain ⟨m, hm, hl⟩ := mem_memberLeaves_iff.1 hl
  exact (h.of_member hm).of_leaf hl

theorem distinct_of_get? {x : Json} (h : Distinct (object ms))
    (hx : (SortedMap.ofList (memberLeaves sequences id ms)).get? path = some x) : x.Distinct :=
  distinct_of_memberLeaf h (SortedMap.mem_of_get?_ofList hx)

theorem flattensLike_iff (hms : Distinct (object ms)) (hns : Distinct (object ns)) :
    FlattensLike sequences (object ms) (object ns) ↔
      FlatMap.Same (.ofList (memberLeaves sequences id ms))
        (.ofList (memberLeaves sequences id ns)) := by
  have he : (object ms).flatten sequences = .ok _ := flatten_object hms
  have ha : (object ns).flatten sequences = .ok _ := flatten_object hns
  constructor
  · rintro ⟨e, a, c, he', ha', hsame, -⟩
    cases he.symm.trans he'
    cases ha.symm.trans ha'
    exact hsame
  · intro hsame
    refine ⟨_, _, _, he, ha, hsame, compare_of_flatten he ha, ?_⟩
    rw [Comparison.isEqual, List.isEmpty_iff, FlatMap.changes_eq_nil_iff]
    exact hsame.imp fun path x y hx hxy => ((distinct_of_get? hms hx).of_same hxy).2

/-- Equal objects flatten alike as long as the leaves at one path are equal. -/
theorem flattensLike_of_same (hms : Distinct (object ms)) (h : (object ms).same w = true)
    (hpaths : Unambiguous sequences ms) : FlattensLike sequences (object ms) w := by
  obtain ⟨ns, rfl, -⟩ := same_object_iff.1 h
  obtain ⟨hns, hsymm⟩ := hms.of_same h
  refine (flattensLike_iff hms hns).2 (SortedMap.agree_ofList ?_ ?_ ?_)
  · intro path x hx
    obtain ⟨y, hy, -⟩ := exists_memberLeaf_of_same h hx
    exact ⟨y, hy⟩
  · intro path y hy
    obtain ⟨x, hx, -⟩ := exists_memberLeaf_of_same hsymm hy
    exact ⟨x, hx⟩
  · intro path x y hx hy
    -- the leaf `y` has a partner `z` on the left, where all leaves at its path are equal
    obtain ⟨z, hz, hyz⟩ := exists_memberLeaf_of_same hsymm hy
    have hxz : x.same z = true := hpaths _ hx _ hz rfl
    have hzy : z.same y = true := ((distinct_of_memberLeaf hns hy).of_same hyz).2
    exact same_trans hxz hzy

/-- Objects that are equal up to the order of members flatten alike, whatever their order,
if and only if the leaves at one path are equal. -/
theorem flatten_order_iff (hms : Distinct (object ms)) (sequences : Bool) :
    (∀ w, (object ms).same w = true → FlattensLike sequences (object ms) w) ↔
      Unambiguous sequences ms := by
  refine ⟨fun h l hl l' hl' hpath => ?_, fun hpaths w hw => flattensLike_of_same hms hw hpaths⟩
  -- each leaf is the last one in some order, so that the view has an equal leaf at its path
  have hlast : ∀ l ∈ memberLeaves sequences id ms, ∃ x,
      (SortedMap.ofList (memberLeaves sequences id ms)).get? l.1 = some x ∧ x.same l.2 = true := by
    intro l hl
    obtain ⟨ns, hsame, hlast⟩ := exists_last_memberLeaf hms
      (fun m hm _ => exists_last_leaf (hms.of_member hm)) hl
    have hflat := (flattensLike_iff hms (hms.of_same hsame).1).1 (h _ hsame)
    exact SortedMap.Agree.exists_left hflat (SortedMap.get?_ofList_of_isLast hlast)
  obtain ⟨x, hx, hxl⟩ := hlast l hl
  obtain ⟨y, hy, hyl⟩ := hlast l' hl'
  rw [← hpath, hx] at hy
  cases hy
  exact same_trans ((distinct_of_get? hms hx).of_same hxl).2 hyl

/-- A document with objects in an object. -/
def nested : List (String × Json) :=
  [("x", object [("p", number (.integer 1)), ("q", number (.integer 2))]), ("y", bool true)]

theorem flatten_order_nested : Distinct (object nested) ∧ Unambiguous true nested ∧
    ∀ w, (object nested).same w = true → FlattensLike true (object nested) w := by
  have hdistinct : Distinct (object nested) := by decide
  have hpaths : Unambiguous true nested := by decide
  exact ⟨hdistinct, hpaths, (flatten_order_iff hdistinct true).2 hpaths⟩

/-- A document with two leaves at one path: a name has the dot that joins names. -/
def dotted : List (String × Json) :=
  [("a.b", number (.integer 1)), ("a", object [("b", number (.integer 2))])]

theorem dotted_order : Distinct (object dotted) ∧
    (object dotted).same (object dotted.reverse) = true ∧
      ¬ FlattensLike false (object dotted) (object dotted.reverse) := by
  have hdistinct : Distinct (object dotted) := by decide
  have hsame : (object dotted).same (object dotted.reverse) = true := by decide
  refine ⟨hdistinct, hsame, fun h => ?_⟩
  have hflat := (flattensLike_iff hdistinct (hdistinct.of_same hsame).1).1 h
  have hlast : (SortedMap.ofList (memberLeaves false id dotted.reverse)).get? "a.b" =
      some (number (.integer 1)) := rfl
  obtain ⟨x, hx, hxl⟩ := SortedMap.Agree.exists_left hflat hlast
  have hfirst : (SortedMap.ofList (memberLeaves false id dotted)).get? "a.b" =
      some (number (.integer 2)) := rfl
  cases hfirst.symm.trans hx
  exact absurd hxl (by decide)

/-- Objects without a dot in their names flatten alike if they are equal up to the order of
members. -/
theorem flattensLike_of_dotless (hms : Distinct (object ms))
    (hdot : (object ms).DotlessNames sequences) (h : (object ms).same w = true) :
    FlattensLike sequences (object ms) w := by
  refine flattensLike_of_same hms h fun l hl l' hl' hpath => ?_
  obtain rfl : l = l' := List.inj_on_of_nodup_map (nodup_rootLeaves hms hdot) hl hl' hpath
  exact (distinct_of_memberLeaf hms hl).same_refl

end Json

end IndexMapping
