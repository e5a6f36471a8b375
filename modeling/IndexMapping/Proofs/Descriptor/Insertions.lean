import IndexMapping.Proofs.Descriptor.TypeSet
import IndexMapping.Proofs.SortedMap
import Mathlib.Data.List.Induction
import Mathlib.Data.Option.Basic

/-! Any sequence of insertions into a set of descriptors, refused ones included. A set that keeps
an index from identities to positions beside its descriptors, and changes the two one after the
other, answers as the list of descriptors alone does: the index always holds the position of each
identity and nothing else, and a refused insertion changes neither. -/

namespace IndexMapping

instance : Hashable TypeId := ⟨fun id => hash id.text⟩

/-- `d'` is `d` but for its bare references, which are read within its package. -/
structure TypeDescriptor.Qualified (d d' : TypeDescriptor) : Prop where
  name : d'.name = d.name
  package : d'.package = d.package
  annotated : d'.annotated = d.annotated
  fields : Fields.Qualified d.package d.fields d'.fields

theorem TypeDescriptor.qualified_qualified (d : TypeDescriptor) : d.Qualified d.qualified :=
  ⟨rfl, rfl, rfl, Fields.qualified_qualifyFields d.package d.fields⟩

theorem run_mapM_concat {σ α β : Type} (f : α → StateM σ β) (as : List α) (a : α) (s : σ) :
    ((as ++ [a]).mapM f).run s =
      (((as.mapM f).run s).1 ++ [((f a).run ((as.mapM f).run s).2).1],
        ((f a).run ((as.mapM f).run s).2).2) := by
  simp only [List.mapM_append, List.mapM_cons, List.mapM_nil]
  rfl

namespace TypeSet

/-- An insertion into a set that is kept; a refused one leaves it as it was. -/
def tryInsert (d : TypeDescriptor) : StateM TypeSet (Except Error TypeId) := fun s =>
  match s.insert d with
  | .error e => (.error e, s)
  | .ok (id, s') => (.ok id, s')

/-- The replies to some insertions, one after the other. -/
def insertAll (ds : List TypeDescriptor) : StateM TypeSet (List (Except Error TypeId)) :=
  ds.mapM tryInsert

variable {s : TypeSet} {d : TypeDescriptor}

theorem tryInsert_of_mem (h : d.id ∈ s.types.map (·.id)) :
    (tryInsert d).run s = (.error (.duplicateName "type set" d.id.text), s) := by
  have hfound : s.get? d.id ≠ none := fun hnone => get?_eq_none_iff.1 hnone h
  obtain ⟨d', hd'⟩ := Option.ne_none_iff_exists'.1 hfound
  simp [tryInsert, insert, hd', StateT.run]

theorem tryInsert_of_notMem (h : d.id ∉ s.types.map (·.id)) :
    (tryInsert d).run s = (.ok d.id, ⟨s.types ++ [d.qualified]⟩) := by
  have hnone : s.get? d.id = none := get?_eq_none_iff.2 h
  simp [tryInsert, insert, hnone, StateT.run]

end TypeSet

/-! ### An index beside the descriptors -/

structure IndexedSet where
  types : List TypeDescriptor
  /-- The position of each identity. -/
  positions : Std.HashMap TypeId Nat

namespace IndexedSet

def empty : IndexedSet := ⟨[], ∅⟩

/-- The descriptors alone. -/
def toTypeSet (s : IndexedSet) : TypeSet := ⟨s.types⟩

/-- Looks a position up and takes the descriptor there. -/
def get? (s : IndexedSet) (id : TypeId) : Option TypeDescriptor :=
  (s.positions[id]?).bind fun i => s.types[i]?

/-- Adds a descriptor: first its position to the index, then the descriptor itself, with its bare
references read within its package. -/
def insert (d : TypeDescriptor) : StateM IndexedSet (Except Error TypeId) := do
  if (← get).positions.contains d.id then
    return .error (.duplicateName "type set" d.id.text)
  modify fun s => { s with positions := s.positions.insert d.id s.types.length }
  modify fun s => { s with types := s.types ++ [d.qualified] }
  return .ok d.id

/-- The replies to some insertions, one after the other. -/
def insertAll (ds : List TypeDescriptor) : StateM IndexedSet (List (Except Error TypeId)) :=
  ds.mapM insert

/-! ### One insertion -/

variable {s : IndexedSet} {d : TypeDescriptor} {id : TypeId}

theorem insert_of_mem (h : d.id ∈ s.positions) :
    (insert d).run s = (.error (.duplicateName "type set" d.id.text), s) := by
  simp [insert, h]
  rfl

theorem insert_of_notMem (h : d.id ∉ s.positions) :
    (insert d).run s =
      (.ok d.id, ⟨s.types ++ [d.qualified], s.positions.insert d.id s.types.length⟩) := by
  simp [insert, h]
  rfl

/-- The index has the position of each identity in the set, and no other entries. -/
def Agrees (s : IndexedSet) : Prop :=
  ∀ (id : TypeId) (i : Nat), s.positions[id]? = some i ↔ (s.types.map (·.id))[i]? = some id

theorem agrees_empty : empty.Agrees := by
  intro id i
  simp [empty]

theorem Agrees.mem_iff (hs : s.Agrees) : id ∈ s.positions ↔ id ∈ s.types.map (·.id) := by
  rw [Std.HashMap.mem_iff_isSome_getElem?, Option.isSome_iff_exists, List.mem_iff_getElem?]
  simp only [hs id]

/-- Two positions of one identity would be the same entry of the index. -/
theorem Agrees.distinct (hs : s.Agrees) : s.toTypeSet.Distinct := by
  apply List.nodup_iff_getElem?_ne_getElem?.2
  intro i j hij hj heq
  have hid := List.getElem?_eq_getElem hj
  have hi := (hs _ i).2 (heq.trans hid)
  have hj := (hs _ j).2 hid
  have : i = j := Option.some.inj (hi.symm.trans hj)
  omega

/-- Looking a descriptor up through the index finds the one that has the identity. -/
theorem Agrees.get?_eq (hs : s.Agrees) (id : TypeId) : s.get? id = s.toTypeSet.get? id := by
  ext d
  rw [TypeSet.get?_eq_some_iff hs.distinct, List.mem_iff_getElem?, get?, Option.bind_eq_some_iff]
  simp only [hs id, List.getElem?_map]
  constructor
  · rintro ⟨i, hi, hd⟩
    rw [hd] at hi
    exact ⟨⟨i, hd⟩, Option.some.inj hi⟩
  · rintro ⟨⟨i, hd⟩, rfl⟩
    have hd : s.types[i]? = some d := hd
    exact ⟨i, by simp [hd], hd⟩

/-- What the end of a list adds to its positions. -/
theorem getElem?_concat_eq_some_iff {α : Type} {l : List α} {a b : α} {i : Nat} :
    (l ++ [a])[i]? = some b ↔ l[i]? = some b ∨ i = l.length ∧ a = b := by
  rcases Nat.lt_trichotomy i l.length with hi | rfl | hi
  · have hne : i ≠ l.length := by omega
    simp [List.getElem?_append_left hi, hne]
  · simp
  · have hne : i ≠ l.length := by omega
    rw [List.getElem?_eq_none (by simp; omega), List.getElem?_eq_none (by omega)]
    simp [hne]

theorem Agrees.push (hs : s.Agrees) (h : d.id ∉ s.positions) :
    Agrees ⟨s.types ++ [d.qualified], s.positions.insert d.id s.types.length⟩ := by
  intro id i
  have hsingle : [d.qualified].map (·.id) = [d.id] := rfl
  rw [Std.HashMap.getElem?_insert, List.map_append, hsingle, getElem?_concat_eq_some_iff,
    List.length_map, ← hs]
  by_cases hid : d.id = id
  · subst hid
    have hnone : s.positions[d.id]? = none := Std.HashMap.getElem?_eq_none h
    simp [hnone, eq_comm]
  · simp [hid]

/-- The descriptors alone give the same reply and end up the same. -/
theorem Agrees.insert (hs : s.Agrees) (d : TypeDescriptor) :
    ((insert d).run s).2.Agrees ∧ (TypeSet.tryInsert d).run s.toTypeSet =
      (((insert d).run s).1, ((insert d).run s).2.toTypeSet) := by
  by_cases h : d.id ∈ s.positions
  · rw [insert_of_mem h]
    exact ⟨hs, TypeSet.tryInsert_of_mem (hs.mem_iff.1 h)⟩
  · have hnew : d.id ∉ s.toTypeSet.types.map (·.id) := fun hmem => h (hs.mem_iff.2 hmem)
    rw [insert_of_notMem h]
    exact ⟨hs.push h, TypeSet.tryInsert_of_notMem hnew⟩

/-! ### Many insertions -/

/-- What the insertions of `ds` into an empty set have replied and left. -/
structure History (ds : List TypeDescriptor) (replies : List (Except Error TypeId))
    (s : IndexedSet) : Prop where
  agrees : s.Agrees
  length : replies.length = ds.length
  /-- The set has the identities that were replied, in their order. -/
  inserted : s.types.map (·.id) = replies.filterMap Except.toOption
  /-- An insertion succeeds unless one before it has succeeded with its identity. -/
  replied : ∀ (k : Nat) (d : TypeDescriptor), ds[k]? = some d →
    (replies[k]? = some (.ok d.id) ∧ ∀ j < k, replies[j]? ≠ some (.ok d.id)) ∨
      (replies[k]? = some (.error (.duplicateName "type set" d.id.text)) ∧
        ∃ j < k, replies[j]? = some (.ok d.id))
  /-- The first descriptor with an identity is found under it. -/
  found : ∀ id, Option.Rel TypeDescriptor.Qualified (ds.find? (·.id = id)) (s.get? id)

theorem history_nil : History [] [] empty := by
  refine ⟨agrees_empty, rfl, rfl, by simp, fun id => ?_⟩
  rw [agrees_empty.get?_eq]
  exact .none

variable {ds : List TypeDescriptor} {replies : List (Except Error TypeId)}

theorem History.mem_iff (h : History ds replies s) :
    id ∈ s.positions ↔ ∃ j < ds.length, replies[j]? = some (.ok id) := by
  rw [h.agrees.mem_iff, h.inserted, ← h.length, List.mem_filterMap]
  constructor
  · rintro ⟨reply, hmem, hreply⟩
    obtain ⟨j, hj, rfl⟩ := List.getElem_of_mem hmem
    refine ⟨j, hj, ?_⟩
    rw [List.getElem?_eq_getElem hj]
    cases hr : replies[j] with
    | error e => simp [hr, Except.toOption] at hreply
    | ok id' =>
      rw [hr] at hreply
      cases hreply
      rfl
  · rintro ⟨j, -, hj⟩
    exact ⟨.ok id, List.mem_of_getElem? hj, rfl⟩

/-- What has been replied stays, and the newest reply comes after it. -/
theorem History.replied_concat (h : History ds replies s) {reply : Except Error TypeId}
    (hnew : (reply = .ok d.id ∧ d.id ∉ s.positions) ∨
      (reply = .error (.duplicateName "type set" d.id.text) ∧ d.id ∈ s.positions))
    {k : Nat} {d' : TypeDescriptor} (hd' : (ds ++ [d])[k]? = some d') :
    ((replies ++ [reply])[k]? = some (.ok d'.id) ∧
        ∀ j < k, (replies ++ [reply])[j]? ≠ some (.ok d'.id)) ∨
      ((replies ++ [reply])[k]? = some (.error (.duplicateName "type set" d'.id.text)) ∧
        ∃ j < k, (replies ++ [reply])[j]? = some (.ok d'.id)) := by
  have hlength := h.length
  have hold : ∀ j < ds.length, (replies ++ [reply])[j]? = replies[j]? := fun j hj =>
    List.getElem?_append_left (by omega)
  rcases getElem?_concat_eq_some_iff.1 hd' with hk | ⟨rfl, rfl⟩
  · have hlt : k < ds.length := (List.getElem?_eq_some_iff.1 hk).1
    rw [hold k hlt]
    refine (h.replied k d' hk).imp (And.imp_right ?_) (And.imp_right ?_)
    · intro hbefore j hj
      rw [hold j (by omega)]
      exact hbefore j hj
    · rintro ⟨j, hj, hr⟩
      exact ⟨j, hj, by rw [hold j (by omega), hr]⟩
  · have hlast : (replies ++ [reply])[ds.length]? = some reply := by simp [← hlength]
    rw [hlast, Option.some_inj, Option.some_inj]
    refine hnew.imp (And.imp_right ?_) (And.imp_right ?_)
    · intro hmem j hj
      rw [hold j hj]
      exact fun hr => hmem (h.mem_iff.2 ⟨j, hj, hr⟩)
    · intro hmem
      obtain ⟨j, hj, hr⟩ := h.mem_iff.1 hmem
      exact ⟨j, hj, by rw [hold j hj, hr]⟩

theorem rel_or {α β : Type} {R : α → β → Prop} {a a' : Option α} {b b' : Option β}
    (h : Option.Rel R a b) (h' : Option.Rel R a' b') : Option.Rel R (a.or a') (b.or b') := by
  cases h with
  | none => exact h'
  | some h => exact .some h

/-- A descriptor that is added is found, unless one before it has its identity. -/
theorem History.found_push (h : History ds replies s) (hnew : d.id ∉ s.positions) (id : TypeId) :
    Option.Rel TypeDescriptor.Qualified ((ds ++ [d]).find? (·.id = id))
      (get? ⟨s.types ++ [d.qualified], s.positions.insert d.id s.types.length⟩ id) := by
  rw [(h.agrees.push hnew).get?_eq, TypeSet.get?, toTypeSet, List.find?_append, List.find?_append]
  apply rel_or
  · have hfound := h.found id
    rwa [h.agrees.get?_eq] at hfound
  · by_cases hid : d.id = id
    · simp [hid, TypeSet.id_qualified, d.qualified_qualified]
    · simp [hid, TypeSet.id_qualified]

/-- A descriptor that is refused is not the first one with its identity. -/
theorem History.found_refused (h : History ds replies s) (hmem : d.id ∈ s.positions)
    (id : TypeId) :
    Option.Rel TypeDescriptor.Qualified ((ds ++ [d]).find? (·.id = id)) (s.get? id) := by
  have hfound := h.found id
  suffices heq : (ds ++ [d]).find? (·.id = id) = ds.find? (·.id = id) by rwa [heq]
  rw [List.find?_append]
  by_cases hid : d.id = id
  · subst hid
    have hsome : s.get? d.id ≠ none := by
      rw [h.agrees.get?_eq, ne_eq, TypeSet.get?_eq_none_iff, not_not]
      exact h.agrees.mem_iff.1 hmem
    obtain ⟨d', hd'⟩ := Option.ne_none_iff_exists'.1 hsome
    rw [hd'] at hfound
    obtain ⟨first, hfirst, -⟩ := SortedMap.exists_of_rel_some hfound
    simp [hfirst]
  · simp [hid]

/-- One more insertion. -/
theorem History.concat (h : History ds replies s) (d : TypeDescriptor) :
    History (ds ++ [d]) (replies ++ [((insert d).run s).1]) ((insert d).run s).2 := by
  have hagrees := (h.agrees.insert d).1
  by_cases hmem : d.id ∈ s.positions
  · rw [insert_of_mem hmem] at hagrees ⊢
    refine ⟨hagrees, by simp [h.length], ?_, fun k d' hd' =>
      h.replied_concat (.inr ⟨rfl, hmem⟩) hd', h.found_refused hmem⟩
    rw [List.filterMap_append, ← h.inserted]
    simp [Except.toOption]
  · rw [insert_of_notMem hmem] at hagrees ⊢
    refine ⟨hagrees, by simp [h.length], ?_, fun k d' hd' =>
      h.replied_concat (.inl ⟨rfl, hmem⟩) hd', h.found_push hmem⟩
    rw [List.filterMap_append, ← h.inserted]
    simp [Except.toOption, TypeSet.id_qualified]

/-- The set with an index and the list alone reply the same and end up with the same
descriptors. -/
theorem run_insertAll (ds : List TypeDescriptor) : ∃ replies s,
    (insertAll ds).run empty = (replies, s) ∧
      (TypeSet.insertAll ds).run .empty = (replies, s.toTypeSet) ∧ History ds replies s := by
  induction ds using List.reverseRecOn with
  | nil => exact ⟨[], empty, rfl, rfl, history_nil⟩
  | append_singleton ds d ih =>
    obtain ⟨replies, s, hrun, hplain, hhistory⟩ := ih
    unfold insertAll TypeSet.insertAll at *
    rw [run_mapM_concat, run_mapM_concat, hrun, hplain, (hhistory.agrees.insert d).2]
    exact ⟨_, _, rfl, rfl, hhistory.concat d⟩

theorem History.size_eq (h : History ds replies s) :
    s.toTypeSet.size = replies.countP (·.isOk) := by
  have hlength := congrArg List.length h.inserted
  rw [List.length_map, List.length_filterMap_eq_countP] at hlength
  rw [TypeSet.size, toTypeSet, hlength]
  apply List.countP_congr
  rintro (_ | _) - <;> simp [Except.toOption, Except.isOk, Except.toBool]

/-- After any insertions into an empty set the index has the positions of the identities in the
set, which are distinct and in the order of their insertion. An insertion fails just if one before
it has succeeded with its identity, and then it changes nothing. The set has one descriptor for
each insertion that succeeded, and under an identity it has the first descriptor that was given
with it, but for bare references. -/
theorem insertAll_indexed (ds : List TypeDescriptor) : ∃ replies s,
    (insertAll ds).run empty = (replies, s) ∧
      (TypeSet.insertAll ds).run .empty = (replies, s.toTypeSet) ∧
      History ds replies s ∧
      (s.types.map (·.id)).Nodup ∧
      s.toTypeSet.size = replies.countP (·.isOk) ∧
      (∀ id, s.toTypeSet.get? id = s.get? id) ∧
      ∀ d err, ((insert d).run s).1 = .error err → ((insert d).run s).2 = s := by
  obtain ⟨replies, s, hrun, hplain, hhistory⟩ := run_insertAll ds
  refine ⟨replies, s, hrun, hplain, hhistory, hhistory.agrees.distinct, hhistory.size_eq,
    fun id => (hhistory.agrees.get?_eq id).symm, fun d err herr => ?_⟩
  by_cases hmem : d.id ∈ s.positions
  · rw [insert_of_mem hmem]
  · rw [insert_of_notMem hmem] at herr
    cases herr

end IndexedSet

end IndexMapping
