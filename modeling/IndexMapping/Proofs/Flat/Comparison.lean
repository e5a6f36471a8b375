import IndexMapping.Flat.Comparison
import IndexMapping.Proofs.Outcome
import IndexMapping.Proofs.SortedMap

/-! The changes between two flat views: the paths at which look-up gives different leaves. -/

namespace IndexMapping

/-! ### Entries side by side -/

namespace SortedMap

variable {α β : Type} {key : String} {x : Option α} {y : Option β}

/-- An entry in front of entries that are known, of which none has its key. -/
theorem mem_cons_entry_iff {rest : List (String × Option α × Option β)} {k : String}
    {x₀ x₁ : Option α} {y₀ y₁ : Option β} (hsome : x₀.isSome ∨ y₀.isSome)
    (hnone : k = key → x₁ = none ∧ y₁ = none)
    (hrest : (key, x, y) ∈ rest ↔ x = x₁ ∧ y = y₁ ∧ (x.isSome ∨ y.isSome)) :
    (key, x, y) ∈ (k, x₀, y₀) :: rest ↔
      x = (if k = key then x₀ else x₁) ∧ y = (if k = key then y₀ else y₁) ∧
        (x.isSome ∨ y.isSome) := by
  rw [List.mem_cons, hrest, Prod.mk.injEq, Prod.mk.injEq]
  by_cases h : k = key
  · obtain ⟨rfl, rfl⟩ := hnone h
    rw [if_pos h, if_pos h]
    constructor
    · rintro (⟨-, rfl, rfl⟩ | ⟨rfl, rfl, hxy⟩)
      · exact ⟨rfl, rfl, hsome⟩
      · simp at hxy
    · rintro ⟨rfl, rfl, -⟩
      exact .inl ⟨h.symm, rfl, rfl⟩
  · rw [if_neg h, if_neg h, or_iff_right fun heq => h heq.1.symm]

/-- The lists side by side: each key of one of them, with its values in both. -/
theorem mem_joinEntries_iff {as : List (String × α)} {bs : List (String × β)}
    (has : as.Pairwise fun a b => a.1 < b.1) (hbs : bs.Pairwise fun a b => a.1 < b.1) :
    (key, x, y) ∈ joinEntries as bs ↔
      x = find? key as ∧ y = find? key bs ∧ (x.isSome ∨ y.isSome) := by
  fun_induction joinEntries as bs with
  | case1 bs =>
    simp only [List.mem_map, Prod.exists, Prod.mk.injEq, ← find?_eq_some_iff hbs]
    constructor
    · rintro ⟨k, b, hb, rfl, rfl, rfl⟩
      exact ⟨rfl, hb.symm, .inr rfl⟩
    · rintro ⟨rfl, rfl, h⟩
      obtain ⟨b, hb⟩ := Option.isSome_iff_exists.1 (h.resolve_left (by simp [find?]))
      exact ⟨key, b, hb, rfl, rfl, hb.symm⟩
  | case2 as =>
    simp only [List.mem_map, Prod.exists, Prod.mk.injEq, ← find?_eq_some_iff has]
    constructor
    · rintro ⟨k, a, ha, rfl, rfl, rfl⟩
      exact ⟨ha.symm, rfl, .inl rfl⟩
    · rintro ⟨rfl, rfl, h⟩
      obtain ⟨a, ha⟩ := Option.isSome_iff_exists.1 (h.resolve_right (by simp [find?]))
      exact ⟨key, a, ha, rfl, ha.symm, rfl⟩
  | case3 k a as l b bs hlt ih =>
    -- the first key on the left is less than all keys on the right
    obtain ⟨hk, has⟩ := List.pairwise_cons.1 has
    have hleft : k = key → find? key as = none := fun h => find?_eq_none_of_lt (h ▸ hk)
    have hright : k = key → find? key ((l, b) :: bs) = none :=
      fun h => find?_cons_eq_none_of_lt (h ▸ hlt) hbs
    rw [mem_cons_entry_iff (.inl rfl) (fun h => ⟨hleft h, hright h⟩) (ih has hbs),
      ite_eq_right_iff.2 fun h => (hright h).symm, ← find?]
  | case4 k a as l b bs hlt hgt ih =>
    obtain ⟨hl, hbs⟩ := List.pairwise_cons.1 hbs
    have hleft : l = key → find? key ((k, a) :: as) = none :=
      fun h => find?_cons_eq_none_of_lt (h ▸ hgt) has
    have hright : l = key → find? key bs = none := fun h => find?_eq_none_of_lt (h ▸ hl)
    rw [mem_cons_entry_iff (.inr rfl) (fun h => ⟨hleft h, hright h⟩) (ih has hbs),
      ite_eq_right_iff.2 fun h => (hleft h).symm, ← find?]
  | case5 k a as l b bs hlt hgt ih =>
    obtain ⟨hk, has⟩ := List.pairwise_cons.1 has
    obtain ⟨hl, hbs⟩ := List.pairwise_cons.1 hbs
    have hkl : k = l := String.le_antisymm (String.not_lt.1 hgt) (String.not_lt.1 hlt)
    have hleft : k = key → find? key as = none := fun h => find?_eq_none_of_lt (h ▸ hk)
    have hright : k = key → find? key bs = none :=
      fun h => find?_eq_none_of_lt (h ▸ hkl ▸ hl)
    rw [mem_cons_entry_iff (.inl rfl) (fun h => ⟨hleft h, hright h⟩) (ih has hbs), ← find?,
      hkl, ← find?]

theorem forall_mem_joinEntries {P : String → Prop} {as : List (String × α)}
    {bs : List (String × β)} (has : ∀ e ∈ as, P e.1) (hbs : ∀ e ∈ bs, P e.1) :
    ∀ e ∈ joinEntries as bs, P e.1 := by
  fun_induction joinEntries as bs with
  | case1 bs => exact List.forall_mem_map.2 hbs
  | case2 as => exact List.forall_mem_map.2 has
  | case3 k a as l b bs hlt ih =>
    obtain ⟨hk, has⟩ := List.forall_mem_cons.1 has
    exact List.forall_mem_cons.2 ⟨hk, ih has hbs⟩
  | case4 k a as l b bs hlt hgt ih =>
    obtain ⟨hl, hbs⟩ := List.forall_mem_cons.1 hbs
    exact List.forall_mem_cons.2 ⟨hl, ih has hbs⟩
  | case5 k a as l b bs hlt hgt ih =>
    obtain ⟨hk, has⟩ := List.forall_mem_cons.1 has
    obtain ⟨-, hbs⟩ := List.forall_mem_cons.1 hbs
    exact List.forall_mem_cons.2 ⟨hk, ih has hbs⟩

/-- The keys side by side are in order, each once. -/
theorem pairwise_joinEntries {as : List (String × α)} {bs : List (String × β)}
    (has : as.Pairwise fun a b => a.1 < b.1) (hbs : bs.Pairwise fun a b => a.1 < b.1) :
    (joinEntries as bs).Pairwise fun a b => a.1 < b.1 := by
  fun_induction joinEntries as bs with
  | case1 bs => exact List.pairwise_map.2 hbs
  | case2 as => exact List.pairwise_map.2 has
  | case3 k a as l b bs hlt ih =>
    obtain ⟨hk, has⟩ := List.pairwise_cons.1 has
    exact List.pairwise_cons.2
      ⟨forall_mem_joinEntries hk (forall_lt_of_lt hlt hbs), ih has hbs⟩
  | case4 k a as l b bs hlt hgt ih =>
    obtain ⟨hl, hbs⟩ := List.pairwise_cons.1 hbs
    exact List.pairwise_cons.2
      ⟨forall_mem_joinEntries (forall_lt_of_lt hgt has) hl, ih has hbs⟩
  | case5 k a as l b bs hlt hgt ih =>
    obtain rfl : k = l := String.le_antisymm (String.not_lt.1 hgt) (String.not_lt.1 hlt)
    obtain ⟨hk, has⟩ := List.pairwise_cons.1 has
    obtain ⟨hl, hbs⟩ := List.pairwise_cons.1 hbs
    exact List.pairwise_cons.2 ⟨forall_mem_joinEntries hk hl, ih has hbs⟩

/-- Entries side by side the other way round. -/
theorem joinEntries_swap (as : List (String × α)) (bs : List (String × β)) :
    joinEntries bs as = (joinEntries as bs).map fun (k, x, y) => (k, y, x) := by
  fun_induction joinEntries as bs with
  | case1 bs => cases bs <;> simp [joinEntries]
  | case2 as => cases as <;> simp [joinEntries]
  | case3 k a as l b bs hlt ih =>
    rw [joinEntries, if_neg (String.lt_asymm hlt), if_pos hlt, ih, List.map_cons]
  | case4 k a as l b bs hlt hgt ih => rw [joinEntries, if_pos hgt, ih, List.map_cons]
  | case5 k a as l b bs hlt hgt ih =>
    obtain rfl : k = l := String.le_antisymm (String.not_lt.1 hgt) (String.not_lt.1 hlt)
    rw [joinEntries, if_neg hlt, if_neg hgt, ih, List.map_cons]

end SortedMap

/-! ### Changes -/

theorem Difference.between_eq_none_iff {x y : Option Json} :
    between x y = none ↔ Option.Rel (fun e a => a.same e = true) x y := by
  constructor
  · intro h
    cases x with
    | none =>
      cases y with
      | none => exact .none
      | some a => nomatch h
    | some e =>
      cases y with
      | none => nomatch h
      | some a => exact .some (by simpa [between] using h)
  · intro h
    cases h with
    | none => rfl
    | some h => exact if_pos h

/-- Nothing has changed between flat views that have the same paths with equal leaves. -/
theorem FlatMap.changes_eq_nil_iff {e a : FlatMap} :
    changes e a = [] ↔ SortedMap.Agree (fun x y => y.same x = true) e a := by
  rw [SortedMap.agree_iff, changes, List.filterMap_eq_nil_iff]
  constructor
  · intro h path
    rw [← Difference.between_eq_none_iff]
    by_cases hsome : (e.get? path).isSome ∨ (a.get? path).isSome
    · have hmem := (SortedMap.mem_joinEntries_iff e.sorted a.sorted).2 ⟨rfl, rfl, hsome⟩
      exact Option.map_eq_none_iff.1 (h _ hmem)
    · obtain ⟨hx, hy⟩ := not_or.1 hsome
      rw [Option.not_isSome_iff_eq_none.1 hx, Option.not_isSome_iff_eq_none.1 hy]
      rfl
  · rintro h ⟨path, x, y⟩ hmem
    obtain ⟨rfl, rfl, -⟩ := (SortedMap.mem_joinEntries_iff e.sorted a.sorted).1 hmem
    exact Option.map_eq_none_iff.2 (Difference.between_eq_none_iff.2 (h path))

theorem Json.compare_of_flatten {sequences : Bool} {v w : Json} {e a : FlatMap}
    (he : v.flatten sequences = .ok e) (ha : w.flatten sequences = .ok a) :
    compare sequences v w = .ok ⟨FlatMap.changes e a, e.size, a.size⟩ := by
  rw [compare, he, ok_bind, ha, ok_bind]

end IndexMapping
