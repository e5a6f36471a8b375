import Mathlib.Data.List.Forall2
import Mathlib.Data.List.Perm.Subperm
import IndexMapping.Proofs.Json.Values

/-! Equality of values up to the order of members. It is an equivalence between values whose
objects have no name twice, as those have that a reader can make. -/

namespace IndexMapping

/-! ### Numbers -/

theorem Decimal.Binary64.eq_iff {x y : Decimal.Binary64} :
    x.eq y = true ↔ x.isZero = true ∧ y.isZero = true ∨ x = y := by
  simp [Decimal.Binary64.eq]

namespace Number

variable {a b c : Number}

theorem same_iff : a.same b = true ↔ a = b ∨
    ∃ x y, a = float x ∧ b = float y ∧ x.isZero = true ∧ y.isZero = true := by
  cases a <;> cases b <;> simp [same, Decimal.Binary64.eq_iff, or_comm]

theorem same_refl (a : Number) : a.same a = true := same_iff.2 (.inl rfl)

theorem same_symm (h : a.same b = true) : b.same a = true := by
  rcases same_iff.1 h with rfl | ⟨x, y, ha, hb, hx, hy⟩
  · exact h
  · exact same_iff.2 (.inr ⟨y, x, hb, ha, hy, hx⟩)

theorem same_trans (h : a.same b = true) (h' : b.same c = true) : a.same c = true := by
  rcases same_iff.1 h with rfl | ⟨x, y, ha, rfl, hx, hy⟩
  · exact h'
  · rcases same_iff.1 h' with rfl | ⟨y', z, -, hc, -, hz⟩
    · exact h
    · exact same_iff.2 (.inr ⟨x, z, ha, hc, hx, hz⟩)

end Number

namespace Json

/-- No object in the value has two members of one name. -/
inductive Distinct : Json → Prop
  | null : Distinct null
  | bool (b : Bool) : Distinct (bool b)
  | number (n : Number) : Distinct (number n)
  | string (s : String) : Distinct (string s)
  | array {xs : List Json} (items : ∀ x ∈ xs, Distinct x) : Distinct (array xs)
  | object {ms : List (String × Json)} (names : (ms.map (·.1)).Nodup)
      (values : ∀ m ∈ ms, Distinct m.2) : Distinct (object ms)

variable {xs ys : List Json} {ms ns : List (String × Json)} {name : String} {u v w : Json}

namespace Distinct

theorem of_item {x : Json} (h : Distinct (.array xs)) (hx : x ∈ xs) : x.Distinct := by
  cases h with
  | array items => exact items x hx

theorem names_nodup (h : Distinct (.object ms)) : (ms.map (·.1)).Nodup := by
  cases h with
  | object names _ => exact names

theorem of_member {m : String × Json} (h : Distinct (.object ms)) (hm : m ∈ ms) :
    m.2.Distinct := by
  cases h with
  | object _ values => exact values m hm

theorem array_iff : Distinct (.array xs) ↔ ∀ x ∈ xs, x.Distinct :=
  ⟨fun h _ hx => h.of_item hx, .array⟩

theorem object_iff :
    Distinct (.object ms) ↔ (ms.map (·.1)).Nodup ∧ ∀ m ∈ ms, m.2.Distinct :=
  ⟨fun h => ⟨h.names_nodup, fun _ hm => h.of_member hm⟩, fun h => .object h.1 h.2⟩

mutual

def decide : (v : Json) → Decidable v.Distinct
  | .null => isTrue .null
  | .bool b => isTrue (.bool b)
  | .number n => isTrue (.number n)
  | .string s => isTrue (.string s)
  | .array xs => @decidable_of_iff _ _ array_iff.symm (decideItems xs)
  | .object ms =>
    @decidable_of_iff _ _ object_iff.symm (@instDecidableAnd _ _ inferInstance (decideMembers ms))

def decideItems : (xs : List Json) → Decidable (∀ x ∈ xs, x.Distinct)
  | [] => isTrue (List.forall_mem_nil _)
  | x :: xs =>
    @decidable_of_iff _ _ List.forall_mem_cons.symm
      (@instDecidableAnd _ _ (decide x) (decideItems xs))

def decideMembers : (ms : List (String × Json)) → Decidable (∀ m ∈ ms, m.2.Distinct)
  | [] => isTrue (List.forall_mem_nil _)
  | (n, v) :: ms =>
    @decidable_of_iff _ _
      (List.forall_mem_cons (p := fun m : String × Json => m.2.Distinct) (a := (n, v))).symm
      (@instDecidableAnd _ _ (decide v) (decideMembers ms))

end

instance : DecidablePred Distinct := decide

end Distinct

/-! ### Members by name -/

theorem mem_of_member? (h : member? name ms = some v) : (name, v) ∈ ms := by
  induction ms with
  | nil => nomatch h
  | cons m ms ih =>
    obtain ⟨n, v'⟩ := m
    rw [member?] at h
    split at h
    next hn =>
      obtain rfl := Option.some.inj h
      exact hn ▸ List.mem_cons_self
    next => exact List.mem_cons_of_mem _ (ih h)

theorem member?_eq_some_iff (hn : (ms.map (·.1)).Nodup) :
    member? name ms = some v ↔ (name, v) ∈ ms := by
  refine ⟨mem_of_member?, fun h => ?_⟩
  induction ms with
  | nil => nomatch h
  | cons m ms ih =>
    obtain ⟨n, v'⟩ := m
    obtain ⟨hfresh, hn⟩ := List.nodup_cons.1 hn
    rcases List.mem_cons.1 h with heq | hmem
    · cases heq
      exact if_pos rfl
    · have hne : n ≠ name := fun heq => hfresh (heq ▸ List.mem_map.2 ⟨_, hmem, rfl⟩)
      exact (if_neg hne).trans (ih hn hmem)

/-! ### What equals a value -/

theorem same_null_iff : null.same w = true ↔ w = null := by
  cases w <;> simp [same]

theorem same_bool_iff {b : Bool} : (bool b).same w = true ↔ w = bool b := by
  cases w <;> simp [same, @eq_comm Bool b]

theorem same_number_iff {n : Number} :
    (number n).same w = true ↔ ∃ m, w = number m ∧ n.same m = true := by
  cases w <;> simp [same]

theorem same_string_iff {s : String} : (string s).same w = true ↔ w = string s := by
  cases w <;> simp [same, @eq_comm String s]

theorem sameItems_iff : sameItems xs ys = true ↔
    List.Forall₂ (fun x y => x.same y = true) xs ys := by
  induction xs generalizing ys with
  | nil => cases ys <;> simp [sameItems]
  | cons x xs ih => cases ys <;> simp [sameItems, ih]

theorem same_array_iff : (array xs).same w = true ↔ ∃ ys, w = array ys ∧
    xs.length = ys.length ∧
      ∀ (i : Nat) (hx : i < xs.length) (hy : i < ys.length), xs[i].same ys[i] = true := by
  cases w <;> simp [same, sameItems_iff, List.forall₂_iff_get]

/-- The members on the left have their names among those on the right, with equal values. -/
theorem sameMembers_iff : sameMembers ms ns = true ↔
    ∀ m ∈ ms, ∃ w, member? m.1 ns = some w ∧ m.2.same w = true := by
  induction ms with
  | nil => simp [sameMembers]
  | cons m ms ih =>
    obtain ⟨n, v⟩ := m
    rw [sameMembers, Bool.and_eq_true, ih, List.forall_mem_cons]
    refine and_congr_left' ?_
    cases member? n ns <;> simp

theorem same_object_iff : (object ms).same w = true ↔ ∃ ns, w = object ns ∧
    ms.length = ns.length ∧ ∀ m ∈ ms, ∃ w, member? m.1 ns = some w ∧ m.2.same w = true := by
  cases w <;> simp [same, sameMembers_iff]

/-- As many members, with all names of distinct members among them, have no other names. -/
theorem exists_member_of_subset (hn : (ms.map (·.1)).Nodup) (hlen : ms.length = ns.length)
    (h : ∀ m ∈ ms, ∃ w, member? m.1 ns = some w ∧ m.2.same w = true) :
    (ns.map (·.1)).Nodup ∧ ∀ n ∈ ns, ∃ v, (n.1, v) ∈ ms ∧ v.same n.2 = true := by
  have hsub : ms.map (·.1) ⊆ ns.map (·.1) := by
    intro name hname
    obtain ⟨m, hm, rfl⟩ := List.mem_map.1 hname
    obtain ⟨w, hw, -⟩ := h m hm
    exact List.mem_map.2 ⟨_, mem_of_member? hw, rfl⟩
  have hperm : (ms.map (·.1)).Perm (ns.map (·.1)) :=
    (List.subperm_of_subset hn hsub).perm_of_length_le (by simp [hlen])
  have hn' : (ns.map (·.1)).Nodup := hperm.nodup hn
  refine ⟨hn', fun n hmem => ?_⟩
  obtain ⟨m, hm, hname⟩ := List.mem_map.1 (hperm.mem_iff.2 (List.mem_map_of_mem hmem))
  obtain ⟨w, hw, hsame⟩ := h m hm
  have hval : some w = some n.2 := by
    rw [← hw, hname, (member?_eq_some_iff hn').2 hmem]
  cases hval
  exact ⟨m.2, hname ▸ hm, hsame⟩

/-! ### Equivalence -/

theorem Distinct.same_refl (hv : v.Distinct) : v.same v = true := by
  induction hv with
  | null => rfl
  | bool b => exact same_bool_iff.2 rfl
  | number n => exact same_number_iff.2 ⟨n, rfl, n.same_refl⟩
  | string s => exact same_string_iff.2 rfl
  | array items ih => exact same_array_iff.2 ⟨_, rfl, rfl, fun i hx _ => ih _ (List.getElem_mem hx)⟩
  | object names values ih =>
    exact same_object_iff.2
      ⟨_, rfl, rfl, fun m hm => ⟨m.2, (member?_eq_some_iff names).2 hm, ih m hm⟩⟩

/-- What equals a value with distinct names has distinct names, and the value equals it. -/
theorem Distinct.of_same (hv : v.Distinct) (h : v.same w = true) :
    w.Distinct ∧ w.same v = true := by
  induction hv generalizing w with
  | null =>
    obtain rfl := same_null_iff.1 h
    exact ⟨.null, h⟩
  | bool b =>
    obtain rfl := same_bool_iff.1 h
    exact ⟨.bool b, h⟩
  | number n =>
    obtain ⟨m, rfl, hm⟩ := same_number_iff.1 h
    exact ⟨.number m, same_number_iff.2 ⟨n, rfl, Number.same_symm hm⟩⟩
  | string s =>
    obtain rfl := same_string_iff.1 h
    exact ⟨.string s, h⟩
  | @array xs items ih =>
    obtain ⟨ys, rfl, hlen, hxy⟩ := same_array_iff.1 h
    refine ⟨.array fun y hy => ?_, same_array_iff.2 ⟨xs, rfl, hlen.symm, fun i hy hx => ?_⟩⟩
    · obtain ⟨i, hi, rfl⟩ := List.getElem_of_mem hy
      exact (ih _ (List.getElem_mem _) (hxy i (hlen ▸ hi) hi)).1
    · exact (ih _ (List.getElem_mem hx) (hxy i hx hy)).2
  | @object ms names values ih =>
    obtain ⟨ns, rfl, hlen, hmem⟩ := same_object_iff.1 h
    obtain ⟨names', hmem'⟩ := exists_member_of_subset names hlen hmem
    refine ⟨.object names' fun n hn => ?_, same_object_iff.2 ⟨ms, rfl, hlen.symm, fun n hn => ?_⟩⟩
    · obtain ⟨v, hv, hsame⟩ := hmem' n hn
      exact (ih _ hv hsame).1
    · obtain ⟨v, hv, hsame⟩ := hmem' n hn
      exact ⟨v, (member?_eq_some_iff names).2 hv, (ih _ hv hsame).2⟩

theorem same_trans (h : u.same v = true) (h' : v.same w = true) : u.same w = true := by
  induction u using Json.induction generalizing v w with
  | null =>
    obtain rfl := same_null_iff.1 h
    exact h'
  | bool b =>
    obtain rfl := same_bool_iff.1 h
    exact h'
  | number n =>
    obtain ⟨m, rfl, hm⟩ := same_number_iff.1 h
    obtain ⟨k, rfl, hk⟩ := same_number_iff.1 h'
    exact same_number_iff.2 ⟨k, rfl, Number.same_trans hm hk⟩
  | string s =>
    obtain rfl := same_string_iff.1 h
    exact h'
  | array xs ih =>
    obtain ⟨ys, rfl, hlen, hxy⟩ := same_array_iff.1 h
    obtain ⟨zs, rfl, hlen', hyz⟩ := same_array_iff.1 h'
    refine same_array_iff.2 ⟨zs, rfl, hlen.trans hlen', fun i hx hz => ?_⟩
    exact ih _ (List.getElem_mem hx) (hxy i hx (hlen ▸ hx)) (hyz i (hlen ▸ hx) hz)
  | object ms ih =>
    obtain ⟨ns, rfl, hlen, hmem⟩ := same_object_iff.1 h
    obtain ⟨ks, rfl, hlen', hmem'⟩ := same_object_iff.1 h'
    refine same_object_iff.2 ⟨ks, rfl, hlen.trans hlen', fun m hm => ?_⟩
    obtain ⟨v, hv, hsame⟩ := hmem m hm
    obtain ⟨w, hw, hsame'⟩ := hmem' _ (mem_of_member? hv)
    exact ⟨w, hw, ih m hm hsame hsame'⟩

end Json

end IndexMapping
