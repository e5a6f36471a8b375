import IndexMapping.Flat.Tree
import IndexMapping.Proofs.Json.Equality
import IndexMapping.Proofs.Outcome
import IndexMapping.Proofs.SortedMap

/-! The leaves of a value as a list. Flattening sets them one after the other, whether the value
is given as a tree or as a composite leaf of one. -/

namespace IndexMapping

namespace Json

mutual

/-- The leaves of a value with their paths, in the order in which they are met. -/
def leaves (sequences : Bool) (path : String) : Json → List (String × Json)
  | .object ms => memberLeaves sequences (Tree.step path) ms
  | .array xs => if sequences then elementLeaves sequences path 0 xs else [(path, .array xs)]
  | .null => [(path, .null)]
  | .bool b => [(path, .bool b)]
  | .number n => [(path, .number n)]
  | .string s => [(path, .string s)]

def elementLeaves (sequences : Bool) (path : String) (index : Nat) :
    List Json → List (String × Json)
  | [] => []
  | x :: xs =>
    leaves sequences (Tree.step path (toString index)) x ++
      elementLeaves sequences path (index + 1) xs

/-- The leaves of members whose values are at the paths that `place` gives to their names. -/
def memberLeaves (sequences : Bool) (place : String → String) :
    List (String × Json) → List (String × Json)
  | [] => []
  | (n, v) :: ms => leaves sequences (place n) v ++ memberLeaves sequences place ms

end

variable {sequences : Bool} {path : String} {place : String → String} {index : Nat}
  {xs ys : List Json} {ms ns : List (String × Json)} {l : String × Json}

theorem mem_elementLeaves_iff : l ∈ elementLeaves sequences path index xs ↔
    ∃ (i : Nat) (hi : i < xs.length),
      l ∈ leaves sequences (Tree.step path (toString (index + i))) xs[i] := by
  induction xs generalizing index with
  | nil => simp [elementLeaves]
  | cons x xs ih =>
    rw [elementLeaves, List.mem_append, ih]
    constructor
    · rintro (h | ⟨i, hi, h⟩)
      · exact ⟨0, Nat.zero_lt_succ _, h⟩
      · exact ⟨i + 1, Nat.succ_lt_succ hi, by rwa [Nat.add_right_comm] at h⟩
    · rintro ⟨i, hi, h⟩
      cases i with
      | zero => exact .inl h
      | succ i => exact .inr ⟨i, Nat.lt_of_succ_lt_succ hi, by rwa [Nat.add_right_comm]⟩

theorem mem_memberLeaves_iff : l ∈ memberLeaves sequences place ms ↔
    ∃ m ∈ ms, l ∈ leaves sequences (place m.1) m.2 := by
  induction ms with
  | nil => simp [memberLeaves]
  | cons m ms ih =>
    obtain ⟨n, v⟩ := m
    rw [memberLeaves, List.mem_append, ih, List.exists_mem_cons_iff]

theorem elementLeaves_append : elementLeaves sequences path index (xs ++ ys) =
    elementLeaves sequences path index xs ++
      elementLeaves sequences path (index + xs.length) ys := by
  induction xs generalizing index with
  | nil => simp [elementLeaves]
  | cons x xs ih =>
    simp only [List.cons_append, elementLeaves, ih, List.append_assoc, List.length_cons]
    rw [Nat.add_right_comm, Nat.add_assoc]

theorem memberLeaves_append : memberLeaves sequences place (ms ++ ns) =
    memberLeaves sequences place ms ++ memberLeaves sequences place ns := by
  induction ms with
  | nil => rfl
  | cons m ms ih =>
    obtain ⟨n, v⟩ := m
    simp only [List.cons_append, memberLeaves, ih, List.append_assoc]

/-- Leaves have what the parts of a value get from it. -/
theorem of_leaf {P : Json → Prop} (hitem : ∀ xs, P (.array xs) → ∀ x ∈ xs, P x)
    (hmember : ∀ ms, P (.object ms) → ∀ m ∈ ms, P m.2) {v : Json} (hv : P v)
    (hl : l ∈ v.leaves sequences path) : P l.2 := by
  induction v using Json.induction generalizing path with
  | null | bool b | number n | string s =>
    rw [leaves, List.mem_singleton] at hl
    exact hl ▸ hv
  | array xs ih =>
    rw [leaves] at hl
    split at hl
    · obtain ⟨i, hi, hl⟩ := mem_elementLeaves_iff.1 hl
      exact ih _ (List.getElem_mem hi) (hitem xs hv _ (List.getElem_mem hi)) hl
    · rw [List.mem_singleton] at hl
      exact hl ▸ hv
  | object ms ih =>
    rw [leaves] at hl
    obtain ⟨m, hm, hl⟩ := mem_memberLeaves_iff.1 hl
    exact ih m hm (hmember ms hv m hm) hl

theorem Distinct.of_leaf {v : Json} (hv : v.Distinct) (hl : l ∈ v.leaves sequences path) :
    l.2.Distinct :=
  Json.of_leaf (fun _ h _ hx => h.of_item hx) (fun _ h _ hm => h.of_member hm) hv hl

end Json

namespace Tree

open Json (leaves elementLeaves memberLeaves)

variable {sequences : Bool} {path : String} {flat : FlatMap} {v : Json} {xs : List Json}
  {ms : List (String × Json)}

/-! ### A composite leaf -/

theorem addElements_eq {index : Nat}
    (h : ∀ x ∈ xs, ∀ path flat,
      addJson sequences path flat x = flat.insertAll (leaves sequences path x)) :
    addElements sequences path index flat xs =
      flat.insertAll (elementLeaves sequences path index xs) := by
  induction xs generalizing index flat with
  | nil => rfl
  | cons x xs ih =>
    obtain ⟨hx, hxs⟩ := List.forall_mem_cons.1 h
    rw [addElements, hx, ih hxs, elementLeaves, SortedMap.insertAll_append]

theorem addMembers_eq
    (h : ∀ m ∈ ms, ∀ path flat,
      addJson sequences path flat m.2 = flat.insertAll (leaves sequences path m.2)) :
    addMembers sequences path flat ms =
      flat.insertAll (memberLeaves sequences (step path) ms) := by
  induction ms generalizing flat with
  | nil => rfl
  | cons m ms ih =>
    obtain ⟨n, v⟩ := m
    obtain ⟨hv, hms⟩ := List.forall_mem_cons.1 h
    rw [addMembers, hv, ih hms, memberLeaves, SortedMap.insertAll_append]

theorem addJson_eq :
    addJson sequences path flat v = flat.insertAll (leaves sequences path v) := by
  induction v using Json.induction generalizing path flat with
  | null | bool b | number n | string s => rfl
  | array xs ih =>
    rw [addJson, leaves]
    split
    · exact addElements_eq fun x hx _ _ => ih x hx
    · rfl
  | object ms ih => exact addMembers_eq fun m hm _ _ => ih m hm

/-! ### The tree of a value -/

theorem itemsToJson_ofItems {index : Nat}
    (h : ∀ x ∈ xs, ∀ path, toJson path (ofJson x) = .ok x) :
    itemsToJson path index (ofJson.ofItems xs) = .ok xs := by
  induction xs generalizing index with
  | nil => rfl
  | cons x xs ih =>
    obtain ⟨hx, hxs⟩ := List.forall_mem_cons.1 h
    rw [ofJson.ofItems, itemsToJson, hx, ok_bind, ih hxs, ok_bind]

theorem entriesToJson_ofMembers {done : List (String × Json)}
    (hn : ((done ++ ms).map (·.1)).Nodup)
    (h : ∀ m ∈ ms, ∀ path, toJson path (ofJson m.2) = .ok m.2) :
    entriesToJson path done (ofJson.ofMembers ms) = .ok (done ++ ms) := by
  induction ms generalizing done with
  | nil => simp [ofJson.ofMembers, entriesToJson]
  | cons m ms ih =>
    obtain ⟨n, v⟩ := m
    obtain ⟨hv, hms⟩ := List.forall_mem_cons.1 h
    have hfresh : n ∉ done.map (·.1) := by
      rw [List.map_append, List.map_cons, List.nodup_append] at hn
      obtain ⟨-, -, hdisjoint⟩ := hn
      exact fun hmem => hdisjoint n hmem n List.mem_cons_self rfl
    rw [ofJson.ofMembers, entriesToJson, stringKey, ok_bind, hv, ok_bind,
      Json.insertMember_of_notMem hfresh, ih (by simpa using hn) hms]
    simp

theorem toJson_ofJson (hv : v.Distinct) : toJson path (ofJson v) = .ok v := by
  induction hv generalizing path with
  | null | bool b | number n | string s => rfl
  | array items ih => rw [ofJson, toJson, itemsToJson_ofItems fun x hx _ => ih x hx]; rfl
  | object names values ih =>
    rw [ofJson, toJson, entriesToJson_ofMembers (by simpa using names) fun m hm _ => ih m hm]
    rfl

theorem addItems_ofItems {index : Nat}
    (h : ∀ x ∈ xs, ∀ path flat,
      add sequences path flat (ofJson x) = .ok (flat.insertAll (leaves sequences path x))) :
    addItems sequences path index flat (ofJson.ofItems xs) =
      .ok (flat.insertAll (elementLeaves sequences path index xs)) := by
  induction xs generalizing index flat with
  | nil => rfl
  | cons x xs ih =>
    obtain ⟨hx, hxs⟩ := List.forall_mem_cons.1 h
    rw [ofJson.ofItems, addItems, hx, ok_bind, ih hxs, elementLeaves, SortedMap.insertAll_append]

theorem addEntries_ofMembers
    (h : ∀ m ∈ ms, ∀ path flat,
      add sequences path flat (ofJson m.2) = .ok (flat.insertAll (leaves sequences path m.2))) :
    addEntries sequences path flat (ofJson.ofMembers ms) =
      .ok (flat.insertAll (memberLeaves sequences (step path) ms)) := by
  induction ms generalizing flat with
  | nil => rfl
  | cons m ms ih =>
    obtain ⟨n, v⟩ := m
    obtain ⟨hv, hms⟩ := List.forall_mem_cons.1 h
    rw [ofJson.ofMembers, addEntries, stringKey, ok_bind, hv, ok_bind, ih hms, memberLeaves,
      SortedMap.insertAll_append]

theorem add_ofJson (hv : v.Distinct) :
    add sequences path flat (ofJson v) = .ok (flat.insertAll (leaves sequences path v)) := by
  induction hv generalizing path flat with
  | null | bool b | number n | string s => rfl
  | @array xs items ih =>
    rw [ofJson, add, leaves]
    split
    · exact addItems_ofItems fun x hx _ _ => ih x hx
    · rw [itemsToJson_ofItems fun x hx _ => toJson_ofJson (items x hx)]
      rfl
  | object names values ih => exact addEntries_ofMembers fun m hm _ _ => ih m hm

theorem addRoot_ofMembers (h : ∀ m ∈ ms, m.2.Distinct) :
    addRoot sequences flat (ofJson.ofMembers ms) =
      .ok (flat.insertAll (memberLeaves sequences id ms)) := by
  induction ms generalizing flat with
  | nil => rfl
  | cons m ms ih =>
    obtain ⟨n, v⟩ := m
    obtain ⟨hv, hms⟩ := List.forall_mem_cons.1 h
    rw [ofJson.ofMembers, addRoot, stringKey, ok_bind, add_ofJson hv, ok_bind, ih hms,
      memberLeaves, SortedMap.insertAll_append, id]

/-- A composite leaf adds what its tree adds. -/
theorem add_leaf (hv : v.Distinct) :
    add sequences path flat (leaf v) = add sequences path flat (ofJson v) := by
  rw [add_ofJson hv, add, addJson_eq]

end Tree

/-- The flat view of an object holds its leaves; of leaves at one path it holds the last. -/
theorem Json.flatten_object {sequences : Bool} {ms : List (String × Json)}
    (h : (object ms).Distinct) :
    (object ms).flatten sequences = .ok (.ofList (memberLeaves sequences id ms)) :=
  Tree.addRoot_ofMembers fun _ hm => h.of_member hm

end IndexMapping
