import IndexMapping.Proofs.Flat.Difference

/-! The numbers in the summary of a comparison. The first counts the paths at which the two views
differ, out of all paths that at least one of them has. The second is the size of the larger view,
which leaves out the paths that only the smaller one has. So it can be less than the first. -/

namespace IndexMapping

namespace SortedMap

variable {α β : Type}

/-- The entries of the left list are those with a value on the left. -/
theorem filterMap_left_joinEntries (as : List (String × α)) (bs : List (String × β)) :
    (joinEntries as bs).filterMap (fun p => p.2.1.map (Prod.mk p.1)) = as := by
  fun_induction joinEntries as bs with
  | case1 bs => simp
  | case2 as => simp
  | case3 k a as l b bs hlt ih => rw [List.filterMap_cons, ih]; rfl
  | case4 k a as l b bs hlt hgt ih => rw [List.filterMap_cons, ih]; rfl
  | case5 k a as l b bs hlt hgt ih => rw [List.filterMap_cons, ih]; rfl

/-- Entries on the left can be counted side by side with those on the right. -/
theorem countP_left_joinEntries (P : String × α → Bool) (as : List (String × α))
    (bs : List (String × β)) :
    as.countP P = (joinEntries as bs).countP fun p => p.2.1.any fun v => P (p.1, v) := by
  conv_lhs => rw [← filterMap_left_joinEntries as bs]
  rw [List.countP_filterMap]
  refine List.countP_congr fun ⟨k, x, y⟩ _ => ?_
  cases x <;> simp

theorem length_left_joinEntries (as : List (String × α)) (bs : List (String × β)) :
    as.length = (joinEntries as bs).countP fun p => p.2.1.isSome := by
  rw [← List.countP_true, countP_left_joinEntries _ as bs]
  refine List.countP_congr fun ⟨k, x, y⟩ _ => ?_
  cases x <;> simp

theorem length_right_joinEntries (as : List (String × α)) (bs : List (String × β)) :
    bs.length = (joinEntries as bs).countP fun p => p.2.2.isSome := by
  rw [length_left_joinEntries bs as, joinEntries_swap, List.countP_map]
  rfl

end SortedMap

namespace FlatMap

variable {e a : FlatMap} {path : String}

/-- The paths that at least one of the views has. -/
def paths (e a : FlatMap) : List String := (SortedMap.joinEntries e.toList a.toList).map (·.1)

/-- The number of paths that only the first view has. -/
def countOnly (e a : FlatMap) : Nat := e.toList.countP fun l => (a.get? l.1).isNone

/-- The number of paths at which both views have the same leaf. -/
def countSame (e a : FlatMap) : Nat := e.toList.countP fun l => (a.get? l.1).any (·.same l.2)

theorem mem_paths_iff : path ∈ paths e a ↔ (e.get? path).isSome ∨ (a.get? path).isSome := by
  rw [paths, List.mem_map]
  constructor
  · rintro ⟨⟨path, x, y⟩, hmem, rfl⟩
    obtain ⟨rfl, rfl, hsome⟩ := (SortedMap.mem_joinEntries_iff e.sorted a.sorted).1 hmem
    exact hsome
  · intro hsome
    exact ⟨(path, _, _),
      (SortedMap.mem_joinEntries_iff e.sorted a.sorted).2 ⟨rfl, rfl, hsome⟩, rfl⟩

theorem nodup_paths (e a : FlatMap) : (paths e a).Nodup := by
  have hsorted := SortedMap.pairwise_joinEntries e.sorted a.sorted
  refine List.Pairwise.imp ?_ (List.pairwise_map.2 hsorted)
  rintro p _ hlt rfl
  exact String.lt_irrefl p hlt

/-! ### Counting paths -/

theorem length_paths_comm (e a : FlatMap) : (paths e a).length = (paths a e).length := by
  rw [paths, paths, SortedMap.joinEntries_swap e.toList, List.map_map, List.length_map,
    List.length_map]

/-- Leaves of the first view are counted by what the second has at their paths. -/
theorem countP_eq_countP_joinEntries {P : Json → Option Json → Bool}
    {Q : Option Json → Option Json → Bool}
    (h : ∀ x y, (x.isSome ∨ y.isSome) → x.any (P · y) = Q x y) :
    e.toList.countP (fun l => P l.2 (a.get? l.1)) =
      (SortedMap.joinEntries e.toList a.toList).countP fun p => Q p.2.1 p.2.2 := by
  rw [SortedMap.countP_left_joinEntries _ _ a.toList]
  refine List.countP_congr fun ⟨k, x, y⟩ hmem => ?_
  obtain ⟨rfl, rfl, hsome⟩ := (SortedMap.mem_joinEntries_iff e.sorted a.sorted).1 hmem
  rw [← h _ _ hsome]
  rfl

/-- A path is one of the second view, or only the first has it. -/
theorem length_paths_eq_size_add (e a : FlatMap) :
    (paths e a).length = a.size + countOnly e a := by
  have honly : countOnly e a = (SortedMap.joinEntries e.toList a.toList).countP
      fun p => ¬ p.2.2.isSome = true := by
    refine countP_eq_countP_joinEntries (P := fun _ y => y.isNone)
      (Q := fun _ y => ¬ y.isSome = true) ?_
    rintro x (_ | y) hsome
    · simpa using hsome
    · simp
  rw [honly, SortedMap.size, SortedMap.length_right_joinEntries e.toList, paths, List.length_map]
  exact List.length_eq_countP_add_countP _

/-- At a path the views differ, or they have the same leaf there. -/
theorem length_paths_eq_changes_add (e a : FlatMap) :
    (paths e a).length = (changes e a).length + countSame e a := by
  have hsame : countSame e a = (SortedMap.joinEntries e.toList a.toList).countP
      fun p => ¬ (Difference.between p.2.1 p.2.2).isSome = true := by
    refine countP_eq_countP_joinEntries (P := fun x y => y.any (·.same x))
      (Q := fun x y => ¬ (Difference.between x y).isSome = true) ?_
    rintro (_ | x) (_ | y) hsome
    · simp at hsome
    · simp [Difference.between]
    · simp [Difference.between]
    · by_cases h : y.same x = true <;> simp [Difference.between, h]
  have hchanges : (changes e a).length = (SortedMap.joinEntries e.toList a.toList).countP
      fun p => (Difference.between p.2.1 p.2.2).isSome := by
    rw [changes, List.length_filterMap_eq_countP]
    refine List.countP_congr ?_
    rintro ⟨k, x, y⟩ -
    rw [Option.isSome_map]
  rw [hsame, hchanges, paths, List.length_map]
  exact List.length_eq_countP_add_countP _

/-- The size of the larger view leaves out the paths that only the smaller one has. -/
theorem length_paths_eq_max_add (e a : FlatMap) :
    (paths e a).length = max e.size a.size + min (countOnly e a) (countOnly a e) := by
  have hright := length_paths_eq_size_add e a
  have hleft := length_paths_eq_size_add a e
  rw [← length_paths_comm] at hleft
  omega

/-- There are at most as many changes as the larger view has paths, if and only if one of the
views has no more paths of its own than the two have leaves in common. -/
theorem length_changes_le_iff (e a : FlatMap) :
    (changes e a).length ≤ max e.size a.size ↔
      min (countOnly e a) (countOnly a e) ≤ countSame e a := by
  have hchanges := length_paths_eq_changes_add e a
  have hmax := length_paths_eq_max_add e a
  omega

end FlatMap

namespace Json

variable {sequences : Bool} {v w : Json} {e a : FlatMap}

/-- The summary of documents that differ tells the number of paths at which they do. That is at
most the number of all paths, of which the second number of the summary leaves out those that only
the smaller view has. So it is at most the second number if and only if one of the views has no
more paths of its own than there are equal leaves. -/
theorem summary_le_iff (hv : v.Distinct) (hw : w.Distinct) (he : v.flatten sequences = .ok e)
    (ha : w.flatten sequences = .ok a) (hne : ¬ FlatMap.Same e a) :
    ∃ c, compare sequences v w = .ok c ∧ IsDifference e a c.changes ∧
      c.summary = s!"{c.changes.length} of {max e.size a.size} paths differ" ∧
      c.changes.length ≤ (FlatMap.paths e a).length ∧
      (FlatMap.paths e a).length = max e.size a.size +
        min (FlatMap.countOnly e a) (FlatMap.countOnly a e) ∧
      (c.changes.length ≤ max e.size a.size ↔
        min (FlatMap.countOnly e a) (FlatMap.countOnly a e) ≤ FlatMap.countSame e a) := by
  have hdifference := isDifference_of_flatten hv hw he ha
  refine ⟨_, compare_of_flatten he ha, hdifference, ?_, ?_,
    FlatMap.length_paths_eq_max_add e a, FlatMap.length_changes_le_iff e a⟩
  · exact if_neg fun hequal => hne ((Comparison.isEqual_iff hdifference).1 hequal)
  · exact (Nat.le_add_right _ _).trans_eq (FlatMap.length_paths_eq_changes_add e a).symm

theorem summary_le_iff_listed : (object listed).Distinct ∧ (object relisted).Distinct ∧
    ∃ e a c, (object listed).flatten true = .ok e ∧ (object relisted).flatten true = .ok a ∧
      ¬ FlatMap.Same e a ∧ compare true (object listed) (object relisted) = .ok c ∧
      c.changes.length ≤ max e.size a.size := by
  have hlisted : (object listed).Distinct := by decide
  have hrelisted : (object relisted).Distinct := by decide
  have he : (object listed).flatten true = .ok _ := flatten_object hlisted
  have ha : (object relisted).flatten true = .ok _ := flatten_object hrelisted
  have hne : ¬ FlatMap.Same (.ofList (memberLeaves true id listed))
      (.ofList (memberLeaves true id relisted)) := by
    intro h
    exact absurd h.length_eq (by decide)
  obtain ⟨c, hc, -, -, -, -, hle⟩ := summary_le_iff hlisted hrelisted he ha hne
  exact ⟨hlisted, hrelisted, _, _, c, he, ha, hne, hc, hle.2 (by decide)⟩

/-- Two documents of one path each, and the path is not the same. -/
theorem summary_apart : ∃ c,
    compare false (object [("a", number (.integer 1))]) (object [("b", number (.integer 2))]) =
      .ok c ∧ c.isEqual = false ∧ c.summary = "2 of 1 paths differ" ∧
      ¬ c.changes.length ≤ max c.expectedSize c.actualSize :=
  ⟨_, rfl, by decide +kernel, by decide +kernel, by decide +kernel⟩

end Json

end IndexMapping
