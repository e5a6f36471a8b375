import Mathlib.Data.List.Forall2
import Mathlib.Data.List.Nodup
import Mathlib.Data.Option.Basic
import IndexMapping.SortedMap

/-! Sorted maps as functions: look-up after insertions, where the last value of a key wins, and
maps that agree key by key. -/

namespace IndexMapping.SortedMap

variable {α β : Type} {key : String}

theorem sorted_singleton (key : String) (value : α) :
    [(key, value)].Pairwise fun a b => a.1 < b.1 :=
  List.pairwise_singleton _ _

/-! ### Look-up -/

theorem find?_eq_lookup (key : String) (l : List (String × α)) : find? key l = l.lookup key := by
  induction l with
  | nil => rfl
  | cons e l ih =>
    obtain ⟨k, v⟩ := e
    by_cases h : k = key
    · simp [find?, h]
    · have hbeq : (key == k) = false := beq_false_of_ne (Ne.symm h)
      simp [find?, List.lookup_cons, h, hbeq, ih]

/-- A key that is less than all others has no value. -/
theorem find?_eq_none_of_lt {l : List (String × α)} (h : ∀ e ∈ l, key < e.1) :
    find? key l = none := by
  rw [find?_eq_lookup, List.lookup_eq_none_iff]
  intro e he
  simp [String.ne_of_lt (h e he)]

/-- What is less than the first key is less than all keys. -/
theorem forall_lt_of_lt {k : String} {v : α} {l : List (String × α)} (hlt : key < k)
    (hl : ((k, v) :: l).Pairwise fun a b => a.1 < b.1) : ∀ e ∈ (k, v) :: l, key < e.1 := by
  obtain ⟨hk, -⟩ := List.pairwise_cons.1 hl
  exact List.forall_mem_cons.2 ⟨hlt, fun e he => String.lt_trans hlt (hk e he)⟩

theorem find?_cons_eq_none_of_lt {k : String} {v : α} {l : List (String × α)} (hlt : key < k)
    (hl : ((k, v) :: l).Pairwise fun a b => a.1 < b.1) : find? key ((k, v) :: l) = none :=
  find?_eq_none_of_lt (forall_lt_of_lt hlt hl)

theorem find?_eq_some_iff {l : List (String × α)} (hl : l.Pairwise fun a b => a.1 < b.1)
    {value : α} : find? key l = some value ↔ (key, value) ∈ l := by
  induction l with
  | nil => simp [find?]
  | cons e l ih =>
    obtain ⟨k, v⟩ := e
    obtain ⟨hk, hl⟩ := List.pairwise_cons.1 hl
    rw [find?, List.mem_cons, Prod.mk.injEq]
    split
    next heq =>
      subst heq
      have hnot : (k, value) ∉ l := fun h => String.lt_irrefl k (hk _ h)
      simp [hnot, eq_comm]
    next hne =>
      simp [ih hl, Ne.symm hne]

theorem get?_empty (key : String) : (empty : SortedMap α).get? key = none := rfl

theorem find?_insertEntry (k : String) (value : α) (l : List (String × α)) :
    find? key (insertEntry k value l) = if k = key then some value else find? key l := by
  induction l with
  | nil => rfl
  | cons e l ih =>
    obtain ⟨k', v⟩ := e
    rw [insertEntry]
    split
    · rw [find?]
    · split
      next heq =>
        subst heq
        rw [find?, find?]
        split <;> rfl
      next hne =>
        rw [find?, find?, ih]
        split
        next heq => rw [if_neg (heq ▸ hne)]
        next => rfl

theorem get?_insert (m : SortedMap α) (k : String) (value : α) :
    (m.insert k value).get? key = if k = key then some value else m.get? key :=
  find?_insertEntry k value m.toList

/-! ### Removal -/

/-- The map without a key. -/
def erase (m : SortedMap α) (key : String) : SortedMap α :=
  ⟨m.toList.filter fun e => e.1 ≠ key, m.sorted.filter _⟩

theorem find?_filter (k : String) (l : List (String × α)) :
    find? key (l.filter fun e => e.1 ≠ k) = if k = key then none else find? key l := by
  induction l with
  | nil => simp [find?]
  | cons e l ih =>
    obtain ⟨k', v⟩ := e
    by_cases hk : k' = k
    · subst hk
      rw [List.filter_cons_of_neg (by simp), ih, find?]
      split <;> rfl
    · rw [List.filter_cons_of_pos (by simpa using hk), find?, find?, ih]
      split
      next heq => rw [if_neg (heq ▸ Ne.symm hk)]
      next => rfl

theorem get?_erase (m : SortedMap α) (k : String) :
    (m.erase k).get? key = if k = key then none else m.get? key :=
  find?_filter k m.toList

/-! ### Many insertions -/

/-- Sets the keys of the entries, one after the other. -/
def insertAll (m : SortedMap α) (entries : List (String × α)) : SortedMap α :=
  entries.foldl (fun m (k, v) => m.insert k v) m

theorem insertAll_append (m : SortedMap α) (as bs : List (String × α)) :
    m.insertAll (as ++ bs) = (m.insertAll as).insertAll bs := List.foldl_append

/-- The last value of a key wins. -/
theorem get?_insertAll (m : SortedMap α) (entries : List (String × α)) :
    (m.insertAll entries).get? key = (entries.reverse.lookup key).or (m.get? key) := by
  induction entries generalizing m with
  | nil => rfl
  | cons e entries ih =>
    obtain ⟨k, v⟩ := e
    rw [List.reverse_cons, List.lookup_append, Option.or_assoc]
    refine (ih (m.insert k v)).trans (congrArg _ ?_)
    rw [get?_insert]
    by_cases h : k = key
    · simp [h]
    · have hbeq : (key == k) = false := beq_false_of_ne (Ne.symm h)
      simp [List.lookup_cons, h, hbeq]

theorem get?_ofList (entries : List (String × α)) :
    (ofList entries).get? key = entries.reverse.lookup key := by
  refine (get?_insertAll empty entries).trans ?_
  rw [get?_empty, Option.or_none]

theorem mem_of_get?_ofList {entries : List (String × α)} {value : α}
    (h : (ofList entries).get? key = some value) : (key, value) ∈ entries := by
  rw [get?_ofList, List.lookup_eq_some_iff] at h
  obtain ⟨after, before, hentries, -⟩ := h
  rw [← List.mem_reverse, hentries]
  exact List.mem_append_right _ List.mem_cons_self

theorem exists_get?_ofList {entries : List (String × α)} {value : α}
    (h : (key, value) ∈ entries) : ∃ last, (ofList entries).get? key = some last := by
  rw [get?_ofList, ← Option.isSome_iff_exists, List.lookup_isSome_iff]
  exact ⟨_, List.mem_reverse.2 h, beq_self_eq_true key⟩

/-- Of entries with distinct keys none is replaced. -/
theorem get?_ofList_eq_some_iff {entries : List (String × α)} (hn : (entries.map (·.1)).Nodup)
    {value : α} : (ofList entries).get? key = some value ↔ (key, value) ∈ entries := by
  refine ⟨mem_of_get?_ofList, fun h => ?_⟩
  obtain ⟨last, hlast⟩ := exists_get?_ofList h
  have heq : (key, last) = (key, value) :=
    List.inj_on_of_nodup_map hn (mem_of_get?_ofList hlast) h rfl
  rw [hlast, (Prod.mk.inj heq).2]

/-- Entries with distinct keys are all in the map, and no others. -/
theorem perm_ofList {entries : List (String × α)} (hn : (entries.map (·.1)).Nodup) :
    (ofList entries).toList.Perm entries := by
  have hnodup : (ofList entries).toList.Nodup := by
    refine List.Pairwise.imp ?_ (ofList entries).sorted
    rintro a _ hlt rfl
    exact String.lt_irrefl a.1 hlt
  refine (List.perm_ext_iff_of_nodup hnodup (List.Nodup.of_map _ hn)).2 fun ⟨k, v⟩ => ?_
  rw [← get?_ofList_eq_some_iff hn, get?, find?_eq_some_iff (ofList entries).sorted]

/-- The entry is the last one with its key. -/
def IsLast (e : String × α) (entries : List (String × α)) : Prop :=
  ∃ before after, entries = before ++ e :: after ∧ ∀ e' ∈ after, e'.1 ≠ e.1

theorem isLast_singleton (e : String × α) : IsLast e [e] := ⟨[], [], rfl, by simp⟩

theorem IsLast.prepend {e : String × α} {entries : List (String × α)} (h : IsLast e entries)
    (front : List (String × α)) : IsLast e (front ++ entries) := by
  obtain ⟨before, after, rfl, hafter⟩ := h
  exact ⟨front ++ before, after, by rw [List.append_assoc], hafter⟩

theorem IsLast.append {e : String × α} {entries back : List (String × α)}
    (h : IsLast e entries) (hback : ∀ e' ∈ back, e'.1 ≠ e.1) : IsLast e (entries ++ back) := by
  obtain ⟨before, after, rfl, hafter⟩ := h
  refine ⟨before, after ++ back, by simp, fun e' he' => ?_⟩
  rcases List.mem_append.1 he' with he' | he'
  · exact hafter e' he'
  · exact hback e' he'

theorem get?_ofList_of_isLast {e : String × α} {entries : List (String × α)}
    (h : IsLast e entries) : (ofList entries).get? e.1 = some e.2 := by
  obtain ⟨before, after, rfl, hafter⟩ := h
  rw [get?_ofList, List.lookup_eq_some_iff]
  refine ⟨after.reverse, before.reverse, by simp, fun e' he' => ?_⟩
  simp [Ne.symm (hafter e' (List.mem_reverse.1 he'))]

/-! ### Values that may be absent -/

section

variable {R : α → β → Prop} {x : Option α} {y : Option β}

theorem isSome_eq_of_rel (h : Option.Rel R x y) : x.isSome = y.isSome := by
  cases h <;> rfl

theorem exists_of_rel_some {w : β} (h : Option.Rel R x (some w)) : ∃ v, x = some v ∧ R v w := by
  cases h with
  | some h => exact ⟨_, rfl, h⟩

theorem exists_of_some_rel {v : α} (h : Option.Rel R (some v) y) : ∃ w, y = some w ∧ R v w := by
  cases h with
  | some h => exact ⟨_, rfl, h⟩

theorem rel_imp {S : α → β → Prop} (h : Option.Rel R x y)
    (himp : ∀ v w, x = some v → R v w → S v w) : Option.Rel S x y := by
  cases h with
  | none => exact .none
  | some h => exact .some (himp _ _ rfl h)

end

/-! ### Maps that agree -/

/-- The entries are the same, but for values that may be replaced by related ones. -/
def Agree (R : α → β → Prop) (m : SortedMap α) (n : SortedMap β) : Prop :=
  List.Forall₂ (fun a b => a.1 = b.1 ∧ R a.2 b.2) m.toList n.toList

variable {R : α → β → Prop}

theorem find?_rel {as : List (String × α)} {bs : List (String × β)}
    (h : List.Forall₂ (fun a b => a.1 = b.1 ∧ R a.2 b.2) as bs) (key : String) :
    Option.Rel R (find? key as) (find? key bs) := by
  induction h with
  | nil => exact .none
  | @cons a b as bs h _ ih =>
    obtain ⟨k, v⟩ := a
    obtain ⟨l, w⟩ := b
    obtain ⟨rfl, hv⟩ : k = l ∧ R v w := h
    rw [find?, find?]
    split
    · exact .some hv
    · exact ih

/-- A key with a value does not come before the first key. -/
theorem le_of_find?_isSome {k : String} {v : α} {l : List (String × α)}
    (hl : ((k, v) :: l).Pairwise fun a b => a.1 < b.1)
    (h : (find? key ((k, v) :: l)).isSome) : k ≤ key := by
  refine String.not_lt.1 fun hlt => ?_
  rw [find?_cons_eq_none_of_lt hlt hl] at h
  nomatch h

theorem forall₂_of_find?_rel {as : List (String × α)} {bs : List (String × β)}
    (has : as.Pairwise fun a b => a.1 < b.1) (hbs : bs.Pairwise fun a b => a.1 < b.1)
    (h : ∀ key, Option.Rel R (find? key as) (find? key bs)) :
    List.Forall₂ (fun a b => a.1 = b.1 ∧ R a.2 b.2) as bs := by
  induction as generalizing bs with
  | nil =>
    cases bs with
    | nil => exact .nil
    | cons b bs =>
      have hb := h b.1
      rw [find?, find?, if_pos rfl] at hb
      nomatch hb
  | cons a as ih =>
    cases bs with
    | nil =>
      have ha := h a.1
      rw [find?, find?, if_pos rfl] at ha
      nomatch ha
    | cons b bs =>
      obtain ⟨k, v⟩ := a
      obtain ⟨l, w⟩ := b
      have hlk : l ≤ k :=
        le_of_find?_isSome hbs ((isSome_eq_of_rel (h k)).symm.trans (by simp [find?]))
      have hkl : k ≤ l :=
        le_of_find?_isSome has ((isSome_eq_of_rel (h l)).trans (by simp [find?]))
      obtain rfl := String.le_antisymm hkl hlk
      obtain ⟨hk, has⟩ := List.pairwise_cons.1 has
      obtain ⟨hl, hbs⟩ := List.pairwise_cons.1 hbs
      have hvw := h k
      rw [find?, find?, if_pos rfl, if_pos rfl, Option.rel_some_some] at hvw
      refine .cons ⟨rfl, hvw⟩ (ih has hbs fun key => ?_)
      by_cases hkey : k = key
      · subst hkey
        rw [find?_eq_none_of_lt hk, find?_eq_none_of_lt hl]
        exact .none
      · simpa only [find?, if_neg hkey] using h key

theorem agree_iff {m : SortedMap α} {n : SortedMap β} :
    m.Agree R n ↔ ∀ key, Option.Rel R (m.get? key) (n.get? key) :=
  ⟨fun h => find?_rel h, forall₂_of_find?_rel m.sorted n.sorted⟩

theorem Agree.exists_left {m : SortedMap α} {n : SortedMap β} (h : m.Agree R n) {w : β}
    (hw : n.get? key = some w) : ∃ v, m.get? key = some v ∧ R v w := by
  have hkey := agree_iff.1 h key
  rw [hw] at hkey
  exact exists_of_rel_some hkey

theorem Agree.exists_right {m : SortedMap α} {n : SortedMap β} (h : m.Agree R n) {v : α}
    (hv : m.get? key = some v) : ∃ w, n.get? key = some w ∧ R v w := by
  have hkey := agree_iff.1 h key
  rw [hv] at hkey
  exact exists_of_some_rel hkey

/-- The relation between the values that the maps have at one key can be replaced. -/
theorem Agree.imp {S : α → β → Prop} {m : SortedMap α} {n : SortedMap β} (h : m.Agree R n)
    (himp : ∀ key v w, m.get? key = some v → R v w → S v w) : m.Agree S n :=
  agree_iff.2 fun key => rel_imp (agree_iff.1 h key) fun v w hv => himp key v w hv

/-- Entries with the same keys make maps that agree, if at each key all values are related. -/
theorem agree_ofList {as : List (String × α)} {bs : List (String × β)}
    (hab : ∀ key v, (key, v) ∈ as → ∃ w, (key, w) ∈ bs)
    (hba : ∀ key w, (key, w) ∈ bs → ∃ v, (key, v) ∈ as)
    (hrel : ∀ key v w, (key, v) ∈ as → (key, w) ∈ bs → R v w) :
    (ofList as).Agree R (ofList bs) := by
  rw [agree_iff]
  intro key
  cases hv : (ofList as).get? key with
  | none =>
    cases hw : (ofList bs).get? key with
    | none => exact .none
    | some w =>
      obtain ⟨v, hmem⟩ := hba key w (mem_of_get?_ofList hw)
      obtain ⟨last, hlast⟩ := exists_get?_ofList hmem
      exact absurd (hv.symm.trans hlast) (by simp)
  | some v =>
    have hmem := mem_of_get?_ofList hv
    obtain ⟨w, hmem'⟩ := hab key v hmem
    obtain ⟨last, hlast⟩ := exists_get?_ofList hmem'
    rw [hlast]
    exact .some (hrel key v last hmem (mem_of_get?_ofList hlast))

/-- Entries with distinct keys make maps that agree if and only if each entry has a related one of
the same key. -/
theorem agree_ofList_iff {as : List (String × α)} {bs : List (String × β)}
    (has : (as.map (·.1)).Nodup) (hbs : (bs.map (·.1)).Nodup) :
    (ofList as).Agree R (ofList bs) ↔
      (∀ a ∈ as, ∃ w, (a.1, w) ∈ bs ∧ R a.2 w) ∧ ∀ b ∈ bs, ∃ v, (b.1, v) ∈ as ∧ R v b.2 := by
  constructor
  · intro h
    constructor
    · intro a ha
      obtain ⟨w, hw, hrel⟩ := h.exists_right ((get?_ofList_eq_some_iff has).2 ha)
      exact ⟨w, mem_of_get?_ofList hw, hrel⟩
    · intro b hb
      obtain ⟨v, hv, hrel⟩ := h.exists_left ((get?_ofList_eq_some_iff hbs).2 hb)
      exact ⟨v, mem_of_get?_ofList hv, hrel⟩
  · rintro ⟨hab, hba⟩
    refine agree_ofList (fun key v hv => ?_) (fun key w hw => ?_) fun key v w hv hw => ?_
    · obtain ⟨w, hw, -⟩ := hab _ hv
      exact ⟨w, hw⟩
    · obtain ⟨v, hv, -⟩ := hba _ hw
      exact ⟨v, hv⟩
    · obtain ⟨w', hw', hrel⟩ := hab _ hv
      obtain ⟨-, rfl⟩ := Prod.mk.inj (List.inj_on_of_nodup_map hbs hw hw' rfl)
      exact hrel

end IndexMapping.SortedMap
