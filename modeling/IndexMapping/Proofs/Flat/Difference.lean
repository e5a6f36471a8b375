import IndexMapping.Proofs.Flat.MemberOrder
import IndexMapping.Proofs.Text.ByteOrder

/-! The changes between two flat views are their difference. Each path at which the views differ
comes once, in the order of bytes, with what both have there. So the changes turn one view into
the other, and the same changes read backwards are those the other way round. They are found as
well by passing over one view after the other and sorting by path. -/

namespace IndexMapping

/-- How the leaves that two views have at a path differ, where either may be absent. -/
inductive Differ : Option Json → Option Json → Difference → Prop
  | missing (x : Json) : Differ (some x) none (.missing x)
  | unexpected (y : Json) : Differ none (some y) (.unexpected y)
  | changed {x y : Json} (h : ¬ x.same y = true) : Differ (some x) (some y) (.changed x y)

/-- The difference seen from the other side. -/
def Difference.mirrored : Difference → Difference
  | missing x => unexpected x
  | unexpected y => missing y
  | changed x y => changed y x

namespace Change

/-- The change seen from the other side. -/
def mirrored (c : Change) : Change := ⟨c.path, c.difference.mirrored⟩

/-- Makes the change: what is missing goes, and what is unexpected or changed is set. -/
def apply (flat : FlatMap) (c : Change) : FlatMap :=
  match c.difference with
  | .missing _ => flat.erase c.path
  | .unexpected y => flat.insert c.path y
  | .changed _ y => flat.insert c.path y

end Change

/-- Makes the changes one after the other. -/
def FlatMap.patch (flat : FlatMap) (changes : List Change) : FlatMap :=
  changes.foldl Change.apply flat

/-- The changes from one flat view to another. -/
structure IsDifference (e a : FlatMap) (changes : List Change) : Prop where
  /-- The bytes of the paths increase strictly. -/
  ordered : changes.Pairwise fun c d => Text.Utf8.encode c.path < Text.Utf8.encode d.path
  /-- A path occurs if and only if the views differ there. -/
  complete : ∀ path, (∃ d, ⟨path, d⟩ ∈ changes) ↔
    ¬ Option.Rel (fun x y => x.same y = true) (e.get? path) (a.get? path)
  /-- It occurs with what the views have there. -/
  exact : ∀ path d, ⟨path, d⟩ ∈ changes ↔ Differ (e.get? path) (a.get? path) d
  /-- The changes lead to the other view. -/
  patched : FlatMap.Same (e.patch changes) a

/-! ### Differences at a path -/

theorem Json.Distinct.same_comm {v w : Json} (hv : v.Distinct) (hw : w.Distinct) :
    v.same w = w.same v :=
  Bool.eq_iff_iff.2 ⟨fun h => (hv.of_same h).2, fun h => (hw.of_same h).2⟩

section

variable {x y : Option Json} {d : Difference}

theorem Differ.actual?_eq (h : Differ x y d) : d.actual? = y := by
  cases h <;> rfl

theorem Differ.not_rel (h : Differ x y d) :
    ¬ Option.Rel (fun x y : Json => x.same y = true) x y := by
  cases h with
  | missing x => exact nofun
  | unexpected y => exact nofun
  | changed h => exact fun hrel => by cases hrel with | some hsame => exact h hsame

theorem exists_differ (h : ¬ Option.Rel (fun x y : Json => x.same y = true) x y) :
    ∃ d, Differ x y d := by
  cases x with
  | none =>
    cases y with
    | none => exact absurd .none h
    | some y => exact ⟨_, .unexpected y⟩
  | some x =>
    cases y with
    | none => exact ⟨_, .missing x⟩
    | some y => exact ⟨_, .changed fun hxy => h (.some hxy)⟩

variable (hx : ∀ v, x = some v → v.Distinct) (hy : ∀ w, y = some w → w.Distinct)

include hx hy

theorem Difference.between_eq_some_iff : between x y = some d ↔ Differ x y d := by
  cases x with
  | none =>
    cases y with
    | none => exact ⟨nofun, nofun⟩
    | some y =>
      rw [between, Option.some.injEq]
      exact ⟨fun h => h ▸ .unexpected y, fun h => by cases h; rfl⟩
  | some x =>
    cases y with
    | none =>
      rw [between, Option.some.injEq]
      exact ⟨fun h => h ▸ .missing x, fun h => by cases h; rfl⟩
    | some y =>
      rw [between, (hy y rfl).same_comm (hx x rfl)]
      split
      next hsame =>
        constructor
        · intro h
          cases h
        · intro h
          cases h with
          | changed hne => exact absurd hsame hne
      next hne =>
        rw [Option.some.injEq]
        exact ⟨fun h => h ▸ .changed hne, fun h => by cases h; rfl⟩

theorem Difference.between_mirrored : between y x = (between x y).map mirrored := by
  cases x with
  | none => cases y <;> rfl
  | some x =>
    cases y with
    | none => rfl
    | some y =>
      rw [between, between, (hy y rfl).same_comm (hx x rfl)]
      split <;> rfl

end

/-! ### Changes between flat views -/

namespace FlatMap

variable {e a flat : FlatMap} {path : String} {d : Difference} {cs : List Change}

theorem mem_changes_iff :
    ⟨path, d⟩ ∈ changes e a ↔ Difference.between (e.get? path) (a.get? path) = some d := by
  simp only [changes, List.mem_filterMap, Prod.exists, Option.map_eq_some_iff, Change.mk.injEq,
    SortedMap.mem_joinEntries_iff e.sorted a.sorted]
  constructor
  · rintro ⟨_, x, y, ⟨rfl, rfl, -⟩, _, hd, rfl, rfl⟩
    exact hd
  · intro hd
    refine ⟨path, _, _, ⟨rfl, rfl, ?_⟩, d, hd, rfl, rfl⟩
    by_contra hnone
    obtain ⟨hx, hy⟩ := not_or.1 hnone
    rw [Option.not_isSome_iff_eq_none] at hx hy
    rw [SortedMap.get?, hx, SortedMap.get?, hy] at hd
    cases hd

theorem pairwise_changes (e a : FlatMap) :
    (changes e a).Pairwise fun c d => c.path < d.path := by
  refine List.pairwise_filterMap.2 ((SortedMap.pairwise_joinEntries e.sorted a.sorted).imp ?_)
  rintro ⟨p, x, y⟩ ⟨q, x', y'⟩ hlt c hc c' hc'
  obtain ⟨_, -, rfl⟩ := Option.map_eq_some_iff.1 hc
  obtain ⟨_, -, rfl⟩ := Option.map_eq_some_iff.1 hc'
  exact hlt

theorem get?_apply (c : Change) : (c.apply flat).get? path =
    if c.path = path then c.difference.actual? else flat.get? path := by
  obtain ⟨p, d⟩ := c
  cases d with
  | missing x => exact SortedMap.get?_erase flat p
  | unexpected y => exact SortedMap.get?_insert flat p y
  | changed x y => exact SortedMap.get?_insert flat p y

theorem patch_cons (flat : FlatMap) (c : Change) (cs : List Change) :
    flat.patch (c :: cs) = (c.apply flat).patch cs := rfl

/-- Changes at other paths leave a path as it is. -/
theorem get?_patch_of_forall_ne (h : ∀ c ∈ cs, c.path ≠ path) :
    (flat.patch cs).get? path = flat.get? path := by
  induction cs generalizing flat with
  | nil => rfl
  | cons c cs ih =>
    obtain ⟨hc, hcs⟩ := List.forall_mem_cons.1 h
    rw [patch_cons, ih hcs, get?_apply, if_neg hc]

/-- A change at a path that no other has makes the leaf there what it tells. -/
theorem get?_patch_of_mem (flat : FlatMap) (hcs : cs.Pairwise fun c d => c.path < d.path)
    {c : Change} (hc : c ∈ cs) : (flat.patch cs).get? c.path = c.difference.actual? := by
  induction cs generalizing flat with
  | nil => nomatch hc
  | cons c' cs ih =>
    obtain ⟨hlt, hcs⟩ := List.pairwise_cons.1 hcs
    rcases List.mem_cons.1 hc with rfl | hc
    · have hne : ∀ d ∈ cs, d.path ≠ c.path := fun d hd => (String.ne_of_lt (hlt d hd)).symm
      rw [patch_cons, get?_patch_of_forall_ne hne, get?_apply, if_pos rfl]
    · exact ih (c'.apply flat) hcs hc

variable (he : ∀ path x, e.get? path = some x → x.Distinct)
  (ha : ∀ path y, a.get? path = some y → y.Distinct)

include he ha

theorem isDifference_changes : IsDifference e a (changes e a) := by
  have hexact : ∀ path d, ⟨path, d⟩ ∈ changes e a ↔ Differ (e.get? path) (a.get? path) d :=
    fun path d => mem_changes_iff.trans (Difference.between_eq_some_iff (he path) (ha path))
  have hcomplete : ∀ path, (∃ d, ⟨path, d⟩ ∈ changes e a) ↔
      ¬ Option.Rel (fun x y : Json => x.same y = true) (e.get? path) (a.get? path) := by
    intro path
    simp only [hexact]
    exact ⟨fun ⟨d, hd⟩ => hd.not_rel, exists_differ⟩
  refine ⟨(pairwise_changes e a).imp Text.Utf8.encode_lt_encode, hcomplete, hexact, ?_⟩
  refine SortedMap.agree_iff.2 fun path => ?_
  by_cases hrel : Option.Rel (fun x y : Json => x.same y = true) (e.get? path) (a.get? path)
  · -- the views agree at the path, and no change is made there
    rwa [get?_patch_of_forall_ne]
    rintro ⟨p, d⟩ hc rfl
    exact (hcomplete _).1 ⟨d, hc⟩ hrel
  · obtain ⟨d, hd⟩ := (hcomplete path).2 hrel
    have hpatch := get?_patch_of_mem e (pairwise_changes e a) hd
    rw [hpatch, ((hexact path d).1 hd).actual?_eq]
    cases hy : a.get? path with
    | none => exact .none
    | some y => exact .some (ha path y hy).same_refl

/-- Seen from the other side the changes are the same, with their sides exchanged. -/
theorem changes_mirrored : changes a e = (changes e a).map Change.mirrored := by
  rw [changes, SortedMap.joinEntries_swap, changes, List.filterMap_map, List.map_filterMap]
  refine List.filterMap_congr ?_
  rintro ⟨path, x, y⟩ hmem
  obtain ⟨rfl, rfl, -⟩ := (SortedMap.mem_joinEntries_iff e.sorted a.sorted).1 hmem
  show (Difference.between (a.get? path) (e.get? path)).map (Change.mk path) =
    ((Difference.between (e.get? path) (a.get? path)).map (Change.mk path)).map Change.mirrored
  rw [Difference.between_mirrored (he path) (ha path), Option.map_map, Option.map_map]
  rfl

end FlatMap

/-! ### Changes in two passes -/

namespace FlatMap

variable {e a flat : FlatMap} {path : String} {d : Difference} {c : Change}

/-- The changes at the paths of the first view. -/
def missingOrChanged (e a : FlatMap) : List Change :=
  e.toList.filterMap fun l => match a.get? l.1 with
    | none => some ⟨l.1, .missing l.2⟩
    | some got => if got.same l.2 then none else some ⟨l.1, .changed l.2 got⟩

/-- The changes at the paths that only the second view has. -/
def unexpected (e a : FlatMap) : List Change :=
  a.toList.filterMap fun l =>
    if (e.get? l.1).isSome then none else some ⟨l.1, .unexpected l.2⟩

theorem mem_toList_iff {v : Json} : (path, v) ∈ flat.toList ↔ flat.get? path = some v :=
  (SortedMap.find?_eq_some_iff flat.sorted).symm

theorem missingOrChanged_eq (e a : FlatMap) : missingOrChanged e a = e.toList.filterMap fun l =>
    (Difference.between (some l.2) (a.get? l.1)).map (Change.mk l.1) := by
  refine List.filterMap_congr fun l _ => ?_
  cases a.get? l.1 with
  | none => rfl
  | some got =>
    by_cases hsame : got.same l.2
    · simp [Difference.between, hsame]
    · simp [Difference.between, hsame]

theorem mem_missingOrChanged_iff : ⟨path, d⟩ ∈ missingOrChanged e a ↔
    ∃ want, e.get? path = some want ∧
      Difference.between (some want) (a.get? path) = some d := by
  simp only [missingOrChanged_eq, List.mem_filterMap, Prod.exists, mem_toList_iff,
    Option.map_eq_some_iff, Change.mk.injEq]
  constructor
  · rintro ⟨_, want, hwant, _, h, rfl, rfl⟩
    exact ⟨want, hwant, h⟩
  · rintro ⟨want, hwant, h⟩
    exact ⟨path, want, hwant, d, h, rfl, rfl⟩

theorem mem_unexpected_iff : ⟨path, d⟩ ∈ unexpected e a ↔
    e.get? path = none ∧ ∃ got, a.get? path = some got ∧ .unexpected got = d := by
  simp only [unexpected, List.mem_filterMap, Prod.exists, mem_toList_iff]
  constructor
  · rintro ⟨p, got, hgot, h⟩
    split at h
    next => cases h
    next hnone =>
      obtain ⟨rfl, rfl⟩ := Change.mk.inj (Option.some.inj h)
      exact ⟨Option.not_isSome_iff_eq_none.1 hnone, got, hgot, rfl⟩
  · rintro ⟨hnone, got, hgot, rfl⟩
    exact ⟨path, got, hgot, by rw [hnone]; rfl⟩

/-- Both passes together find the changes. -/
theorem mem_passes_iff : c ∈ missingOrChanged e a ++ unexpected e a ↔ c ∈ changes e a := by
  obtain ⟨path, d⟩ := c
  rw [List.mem_append, mem_missingOrChanged_iff, mem_unexpected_iff, mem_changes_iff]
  cases e.get? path with
  | some want => simp
  | none => cases a.get? path <;> simp [Difference.between]

/-- A pass that makes at most one change of each leaf, at its path, finds each path once. -/
theorem nodup_pass {f : String × Json → Option Change} (hf : ∀ l c, f l = some c → c.path = l.1) :
    (flat.toList.filterMap f).Nodup := by
  refine List.pairwise_filterMap.2 (flat.sorted.imp fun {l l'} hlt c hc c' hc' heq => ?_)
  rw [← hf l c hc, ← hf l' c' hc', heq] at hlt
  exact String.lt_irrefl _ hlt

theorem nodup_passes (e a : FlatMap) : (missingOrChanged e a ++ unexpected e a).Nodup := by
  have hfirst : (missingOrChanged e a).Nodup := by
    rw [missingOrChanged_eq]
    refine nodup_pass fun l c hc => ?_
    obtain ⟨_, -, rfl⟩ := Option.map_eq_some_iff.1 hc
    rfl
  have hsecond : (unexpected e a).Nodup := by
    refine nodup_pass fun l c hc => ?_
    split at hc
    · cases hc
    · cases hc
      rfl
  refine List.nodup_append.2 ⟨hfirst, hsecond, ?_⟩
  -- what the first pass finds is at a path of the first view
  rintro ⟨path, d⟩ hc _ hc' rfl
  obtain ⟨want, hwant, -⟩ := mem_missingOrChanged_iff.1 hc
  rw [(mem_unexpected_iff.1 hc').1] at hwant
  cases hwant

/-- There is one change at each path. -/
theorem eq_of_mem_changes {c' : Change} (hc : c ∈ changes e a) (hc' : c' ∈ changes e a)
    (h : c.path = c'.path) : c = c' := by
  obtain ⟨path, d⟩ := c
  obtain ⟨_, d'⟩ := c'
  obtain rfl : path = _ := h
  rw [mem_changes_iff] at hc hc'
  rw [Option.some.inj (hc.symm.trans hc')]

/-- The changes are those of both passes, sorted by their paths. -/
theorem changes_eq_mergeSort (e a : FlatMap) : changes e a =
    (missingOrChanged e a ++ unexpected e a).mergeSort fun c d => c.path ≤ d.path := by
  have hlt := pairwise_changes e a
  have hnodup : (changes e a).Nodup := by
    refine List.Pairwise.imp ?_ hlt
    rintro c _ hself rfl
    exact String.lt_irrefl _ hself
  have hperm : (changes e a).Perm (missingOrChanged e a ++ unexpected e a) :=
    (List.perm_ext_iff_of_nodup hnodup (nodup_passes e a)).2 fun _ => mem_passes_iff.symm
  refine List.Perm.eq_of_pairwise (fun c c' hc hc' hle hle' => ?_)
    (hlt.imp fun {c d} hlt => String.not_lt.1 (String.lt_asymm hlt))
    (Text.pairwise_mergeSort Change.path _) (hperm.trans (List.mergeSort_perm _ _).symm)
  have hmem : c' ∈ changes e a := mem_passes_iff.1 (List.mem_mergeSort.1 hc')
  exact eq_of_mem_changes hc hmem (String.le_antisymm hle hle')

end FlatMap

/-! ### No changes -/

/-- There are no changes if and only if the views are the same. -/
theorem IsDifference.eq_nil_iff {e a : FlatMap} {cs : List Change} (h : IsDifference e a cs) :
    cs = [] ↔ FlatMap.Same e a := by
  rw [FlatMap.Same, SortedMap.agree_iff, List.eq_nil_iff_forall_not_mem]
  constructor
  · intro hnil path
    by_contra hrel
    obtain ⟨d, hd⟩ := (h.complete path).2 hrel
    exact hnil _ hd
  · rintro hsame ⟨path, d⟩ hc
    exact (h.complete path).1 ⟨d, hc⟩ (hsame path)

/-! ### Comparing documents -/

theorem Comparison.isEqual_iff {e a : FlatMap} {c : Comparison} (h : IsDifference e a c.changes) :
    c.isEqual = true ↔ FlatMap.Same e a := by
  rw [isEqual, List.isEmpty_iff, h.eq_nil_iff]

namespace Json

variable {sequences : Bool} {v w : Json} {e a : FlatMap}

theorem distinct_of_flatten (hv : v.Distinct) (he : v.flatten sequences = .ok e) {path : String}
    {x : Json} (hx : e.get? path = some x) : x.Distinct := by
  cases v with
  | null | bool b | number n | string s | array xs => nomatch he
  | object ms =>
    cases (flatten_object hv).symm.trans he
    exact distinct_of_get? hv hx

theorem isDifference_of_flatten (hv : v.Distinct) (hw : w.Distinct)
    (he : v.flatten sequences = .ok e) (ha : w.flatten sequences = .ok a) :
    IsDifference e a (FlatMap.changes e a) :=
  FlatMap.isDifference_changes (fun _ _ => distinct_of_flatten hv he)
    fun _ _ => distinct_of_flatten hw ha

/-- Documents compare as equal if and only if their flat views are the same. -/
theorem exists_compare_iff (hv : v.Distinct) (hw : w.Distinct) (he : v.flatten sequences = .ok e)
    (ha : w.flatten sequences = .ok a) :
    ∃ c, compare sequences v w = .ok c ∧ (c.isEqual = true ↔ FlatMap.Same e a) :=
  ⟨_, compare_of_flatten he ha, Comparison.isEqual_iff (isDifference_of_flatten hv hw he ha)⟩

/-- Comparing two documents gives the difference between their flat views, and comparing them the
other way round gives the same changes with their sides exchanged. -/
theorem compare_difference (hv : v.Distinct) (hw : w.Distinct) (he : v.flatten sequences = .ok e)
    (ha : w.flatten sequences = .ok a) :
    ∃ c c', compare sequences v w = .ok c ∧ compare sequences w v = .ok c' ∧
      IsDifference e a c.changes ∧ (c.isEqual = true ↔ FlatMap.Same e a) ∧
      c'.changes = c.changes.map Change.mirrored := by
  have hdifference := isDifference_of_flatten hv hw he ha
  refine ⟨_, _, compare_of_flatten he ha, compare_of_flatten ha he, hdifference,
    Comparison.isEqual_iff hdifference, ?_⟩
  exact FlatMap.changes_mirrored (fun _ _ => distinct_of_flatten hv he)
    (fun _ _ => distinct_of_flatten hw ha)

/-- A document with a leaf that only it has, one of another value and one with a dotted name. -/
def listed : List (String × Json) :=
  [("p", object [("a", array [number (.integer 1), number (.integer 2)]), ("b", null)]),
    ("x.y", bool true)]

def relisted : List (String × Json) :=
  [("x", object [("y", bool false)]),
    ("p", object [("c", string "s"), ("a", array [number (.integer 1)])])]

theorem compare_difference_listed : (object listed).Distinct ∧ (object relisted).Distinct ∧
    ∃ e a c c', (object listed).flatten true = .ok e ∧ (object relisted).flatten true = .ok a ∧
      compare true (object listed) (object relisted) = .ok c ∧
      compare true (object relisted) (object listed) = .ok c' ∧
      IsDifference e a c.changes ∧ (c.isEqual = true ↔ FlatMap.Same e a) ∧
      c'.changes = c.changes.map Change.mirrored := by
  have hlisted : (object listed).Distinct := by decide
  have hrelisted : (object relisted).Distinct := by decide
  have he : (object listed).flatten true = .ok _ := flatten_object hlisted
  have ha : (object relisted).flatten true = .ok _ := flatten_object hrelisted
  obtain ⟨c, c', h⟩ := compare_difference hlisted hrelisted he ha
  exact ⟨hlisted, hrelisted, _, _, c, c', he, ha, h⟩

end Json

end IndexMapping
