import IndexMapping.Flat.Tree
import IndexMapping.Proofs.Outcome

/-! The keys of a tree in document order. Flattening stops at the first of them that is not a
string, and so does the conversion of a sequence that is kept as a leaf. Hence it does not depend on
how sequences are treated whether a tree can be flattened, nor which key it is refused for. -/

namespace IndexMapping.Tree

/-- What holds of a tree once it holds of the trees in it holds of all trees. -/
theorem induction {P : Tree → Prop} (leaf : ∀ v, P (leaf v))
    (list : ∀ items, (∀ t ∈ items, P t) → P (list items))
    (map : ∀ entries, (∀ e ∈ entries, P e.2) → P (map entries)) : ∀ t, P t
  | .leaf v => leaf v
  | .list items => list items fun t ht =>
    have := List.sizeOf_lt_of_mem ht
    induction leaf list map t
  | .map entries => map entries fun e he =>
    have := List.sizeOf_lt_of_mem he
    have : sizeOf e.2 < sizeOf e := by
      obtain ⟨key, t⟩ := e
      simp only [Prod.mk.sizeOf_spec]
      omega
    induction leaf list map e.2
termination_by t => sizeOf t

/-! ### Document order -/

/-- A composite leaf is of the kind of its value. -/
def kind : Tree → TreeKind
  | map _ | leaf (.object _) => .mapping
  | list _ | leaf (.array _) => .sequence
  | leaf _ => .scalar

def isString : Json → Bool
  | .string _ => true
  | _ => false

/-- The step to the value of a key. -/
def label : Json → String
  | .string s => s
  | key => key.compact

mutual

/-- The keys of the mappings in a tree, with the paths of the mappings. Each key comes before those
in its value. The names in a leaf are left out, as they are strings. -/
def keys (path : String) : Tree → List (String × Json)
  | leaf _ => []
  | list items => itemKeys path 0 items
  | map entries => entryKeys path (step path) entries

def itemKeys (path : String) (index : Nat) : List Tree → List (String × Json)
  | [] => []
  | t :: ts => keys (step path (toString index)) t ++ itemKeys path (index + 1) ts

/-- The keys of a mapping and of the values, which are where `place` puts the steps to them. -/
def entryKeys (path : String) (place : String → String) :
    List (Json × Tree) → List (String × Json)
  | [] => []
  | (key, t) :: es => (path, key) :: (keys (place (label key)) t ++ entryKeys path place es)

end

/-- The keys of a whole tree. The topmost ones start the paths. -/
def rootKeys : Tree → List (String × Json)
  | map entries => entryKeys root id entries
  | list _ | leaf _ => []

/-- The first key that is not a string. -/
def fault? (ks : List (String × Json)) : Option (String × Json) := ks.find? fun k => !isString k.2

theorem fault?_eq_none_iff {ks : List (String × Json)} :
    fault? ks = none ↔ ∀ k ∈ ks, isString k.2 = true := by
  simp [fault?]

theorem fault?_append (ks ks' : List (String × Json)) :
    fault? (ks ++ ks') = (fault? ks).or (fault? ks') :=
  List.find?_append

/-- A tree is itself or in one of its parts. -/
inductive Within (t : Tree) : Tree → Prop
  | self : Within t t
  | item {u : Tree} {items : List Tree} (hu : u ∈ items) (h : Within t u) : Within t (list items)
  | entry {e : Json × Tree} {entries : List (Json × Tree)} (he : e ∈ entries)
      (h : Within t e.2) : Within t (map entries)

/-- No mapping in the tree has a key that is not a string. -/
def Named (t : Tree) : Prop :=
  ∀ entries, Within (map entries) t → ∀ e ∈ entries, isString e.1 = true

variable {path : String} {place : String → String} {items : List Tree}
  {entries : List (Json × Tree)} {v : Json}

theorem named_leaf : Named (leaf v) := by
  rintro entries ⟨⟩

theorem named_list_iff : Named (list items) ↔ ∀ t ∈ items, Named t := by
  constructor
  · exact fun h t ht entries hentries => h entries (.item ht hentries)
  · intro h entries hentries
    cases hentries with
    | item ht hentries => exact h _ ht entries hentries

theorem named_map_iff :
    Named (map entries) ↔ ∀ e ∈ entries, isString e.1 = true ∧ Named e.2 := by
  constructor
  · exact fun h e he => ⟨h entries .self e he, fun es hes => h es (.entry he hes)⟩
  · intro h es hes
    cases hes with
    | self => exact fun e he => (h e he).1
    | entry he hes => exact (h _ he).2 es hes

theorem forall_itemKeys_iff {index : Nat}
    (h : ∀ t ∈ items, ∀ path, (∀ k ∈ keys path t, isString k.2 = true) ↔ Named t) :
    (∀ k ∈ itemKeys path index items, isString k.2 = true) ↔ ∀ t ∈ items, Named t := by
  induction items generalizing index with
  | nil => simp [itemKeys]
  | cons t ts ih =>
    obtain ⟨ht, hts⟩ := List.forall_mem_cons.1 h
    rw [itemKeys, List.forall_mem_append, ht, ih hts, List.forall_mem_cons]

theorem forall_entryKeys_iff
    (h : ∀ e ∈ entries, ∀ path, (∀ k ∈ keys path e.2, isString k.2 = true) ↔ Named e.2) :
    (∀ k ∈ entryKeys path place entries, isString k.2 = true) ↔
      ∀ e ∈ entries, isString e.1 = true ∧ Named e.2 := by
  induction entries with
  | nil => simp [entryKeys]
  | cons e es ih =>
    obtain ⟨key, t⟩ := e
    obtain ⟨ht, hes⟩ := List.forall_mem_cons.1 h
    rw [entryKeys, List.forall_mem_cons, List.forall_mem_append, ht, ih hes, List.forall_mem_cons,
      and_assoc]

/-- The list has the keys of all mappings in the tree. -/
theorem forall_keys_iff (t : Tree) (path : String) :
    (∀ k ∈ keys path t, isString k.2 = true) ↔ Named t := by
  induction t using Tree.induction generalizing path with
  | leaf v => simp [keys, named_leaf]
  | list items ih => rw [keys, forall_itemKeys_iff ih, named_list_iff]
  | map entries ih => rw [keys, forall_entryKeys_iff ih, named_map_iff]

/-! ### Computations that stop at the first fault -/

variable {α β : Type}

/-- The computation succeeds if all keys are strings, and else its error is the first other key. -/
def StopsAt (ks : List (String × Json)) (r : Except Error α) : Prop :=
  match fault? ks with
  | none => ∃ a, r = .ok a
  | some (path, key) => r = .error (.keyNotString path key)

namespace StopsAt

variable {ks ks' : List (String × Json)} {r : Except Error α}

theorem ok (a : α) : StopsAt [] (.ok a) := ⟨a, rfl⟩

theorem stringKey (path : String) (key : Json) : StopsAt [(path, key)] (stringKey path key) := by
  cases key with
  | string s => exact ⟨s, rfl⟩
  | _ => rfl

/-- What the computation gives, in either case. -/
theorem cases (h : StopsAt ks r) :
    (fault? ks = none ∧ ∃ a, r = .ok a) ∨
      ∃ path key, fault? ks = some (path, key) ∧ r = .error (.keyNotString path key) := by
  unfold StopsAt at h
  split at h
  next hnone => exact .inl ⟨hnone, h⟩
  next path key hfault => exact .inr ⟨path, key, hfault, h⟩

theorem bind {f : α → Except Error β} (h : StopsAt ks r)
    (hf : ∀ a, r = .ok a → StopsAt ks' (f a)) : StopsAt (ks ++ ks') (r >>= f) := by
  unfold StopsAt
  rw [fault?_append]
  rcases h.cases with ⟨hnone, a, rfl⟩ | ⟨path, key, hfault, rfl⟩
  · rw [hnone, Option.none_or]
    exact hf a rfl
  · rw [hfault, Option.some_or]
    rfl

theorem map (f : α → β) (h : StopsAt ks r) : StopsAt ks (r.map f) := by
  unfold StopsAt
  rcases h.cases with ⟨hnone, a, rfl⟩ | ⟨path, key, hfault, rfl⟩
  · rw [hnone]
    exact ⟨f a, rfl⟩
  · rw [hfault]
    rfl

theorem error_iff (h : StopsAt ks r) {path : String} {key : Json} :
    r = .error (.keyNotString path key) ↔ fault? ks = some (path, key) := by
  rcases h.cases with ⟨hnone, a, rfl⟩ | ⟨path', key', hfault, rfl⟩
  · simp [hnone]
  · simp [hfault]

theorem ne_notAMapping (h : StopsAt ks r) {kind : TreeKind} : r ≠ .error (.notAMapping kind) := by
  rcases h.cases with ⟨-, a, rfl⟩ | ⟨path, key, -, rfl⟩ <;> simp

theorem exists_ok_iff (h : StopsAt ks r) : (∃ a, r = .ok a) ↔ fault? ks = none := by
  rcases h.cases with ⟨hnone, a, rfl⟩ | ⟨path, key, hfault, rfl⟩
  · simp [hnone]
  · simp [hfault]

/-- Computations that stop at the same fault succeed together or have the same error. -/
theorem outcome_eq {r' : Except Error β} (h : StopsAt ks r) (h' : StopsAt ks r') :
    r.map (fun _ => ()) = r'.map fun _ => () := by
  rcases h.cases with ⟨hnone, a, rfl⟩ | ⟨path, key, hfault, rfl⟩
  · obtain ⟨b, rfl⟩ := h'.exists_ok_iff.2 hnone
    rfl
  · rw [h'.error_iff.2 hfault]
    rfl

end StopsAt

/-! ### Conversion and flattening -/

variable {sequences : Bool} {flat : FlatMap}

theorem label_of_stringKey {key : Json} {name : String} (h : stringKey path key = .ok name) :
    label key = name := by
  cases key with
  | string s =>
    cases h
    rfl
  | _ => cases h

theorem stopsAt_itemsToJson {index : Nat}
    (h : ∀ t ∈ items, ∀ path, StopsAt (keys path t) (toJson path t)) :
    StopsAt (itemKeys path index items) (itemsToJson path index items) := by
  induction items generalizing index with
  | nil => exact .ok _
  | cons t ts ih =>
    obtain ⟨ht, hts⟩ := List.forall_mem_cons.1 h
    refine (ht _).bind fun v _ => ?_
    rw [← List.append_nil (itemKeys _ _ _)]
    exact (ih hts).bind fun vs _ => .ok _

theorem stopsAt_entriesToJson {done : List (String × Json)}
    (h : ∀ e ∈ entries, ∀ path, StopsAt (keys path e.2) (toJson path e.2)) :
    StopsAt (entryKeys path (step path) entries) (entriesToJson path done entries) := by
  induction entries generalizing done with
  | nil => exact .ok _
  | cons e es ih =>
    obtain ⟨key, t⟩ := e
    obtain ⟨ht, hes⟩ := List.forall_mem_cons.1 h
    refine (StopsAt.stringKey path key).bind fun name hname => ?_
    rw [label_of_stringKey hname]
    exact (ht _).bind fun v _ => ih hes

theorem stopsAt_toJson (t : Tree) (path : String) : StopsAt (keys path t) (toJson path t) := by
  induction t using Tree.induction generalizing path with
  | leaf v => exact .ok _
  | list items ih => exact (stopsAt_itemsToJson ih).map _
  | map entries ih => exact (stopsAt_entriesToJson ih).map _

theorem stopsAt_addItems {index : Nat}
    (h : ∀ t ∈ items, ∀ path flat, StopsAt (keys path t) (add sequences path flat t)) :
    StopsAt (itemKeys path index items) (addItems sequences path index flat items) := by
  induction items generalizing index flat with
  | nil => exact .ok _
  | cons t ts ih =>
    obtain ⟨ht, hts⟩ := List.forall_mem_cons.1 h
    exact (ht _ flat).bind fun _ _ => ih hts

theorem stopsAt_addEntries
    (h : ∀ e ∈ entries, ∀ path flat, StopsAt (keys path e.2) (add sequences path flat e.2)) :
    StopsAt (entryKeys path (step path) entries) (addEntries sequences path flat entries) := by
  induction entries generalizing flat with
  | nil => exact .ok _
  | cons e es ih =>
    obtain ⟨key, t⟩ := e
    obtain ⟨ht, hes⟩ := List.forall_mem_cons.1 h
    refine (StopsAt.stringKey path key).bind fun name hname => ?_
    rw [label_of_stringKey hname]
    exact (ht _ flat).bind fun _ _ => ih hes

/-- Both ways to treat a sequence meet the same keys at the same paths. -/
theorem stopsAt_add (t : Tree) (path : String) (flat : FlatMap) :
    StopsAt (keys path t) (add sequences path flat t) := by
  induction t using Tree.induction generalizing path flat with
  | leaf v => exact .ok _
  | list items ih =>
    rw [add]
    split
    · exact stopsAt_addItems ih
    · exact (stopsAt_itemsToJson fun t _ => stopsAt_toJson t).map _
  | map entries ih => exact stopsAt_addEntries ih

theorem stopsAt_addRoot :
    StopsAt (entryKeys root id entries) (addRoot sequences flat entries) := by
  induction entries generalizing flat with
  | nil => exact .ok _
  | cons e es ih =>
    obtain ⟨key, t⟩ := e
    refine (StopsAt.stringKey root key).bind fun name hname => ?_
    rw [label_of_stringKey hname]
    exact (stopsAt_add t name flat).bind fun _ _ => ih

theorem eq_of_kind {t : Tree} (ht : t.kind = .mapping) :
    (∃ entries, t = map entries) ∨ ∃ ms, t = leaf (.object ms) := by
  match t with
  | map entries => exact .inl ⟨entries, rfl⟩
  | leaf (.object ms) => exact .inr ⟨ms, rfl⟩
  | list _ | leaf (.array _) | leaf .null | leaf (.bool _) | leaf (.number _) | leaf (.string _) =>
    cases ht

theorem stopsAt_flatten {t : Tree} (ht : t.kind = .mapping) (sequences : Bool) :
    StopsAt t.rootKeys (t.flatten sequences) := by
  rcases eq_of_kind ht with ⟨entries, rfl⟩ | ⟨ms, rfl⟩
  · exact stopsAt_addRoot
  · exact .ok _

theorem fault?_rootKeys_iff {t : Tree} (ht : t.kind = .mapping) :
    fault? t.rootKeys = none ↔ t.Named := by
  rw [fault?_eq_none_iff]
  rcases eq_of_kind ht with ⟨entries, rfl⟩ | ⟨ms, rfl⟩
  · rw [rootKeys, forall_entryKeys_iff fun e _ => forall_keys_iff e.2, named_map_iff]
  · simp [rootKeys, named_leaf]

theorem flatten_of_not_mapping {t : Tree} (ht : t.kind ≠ .mapping) (sequences : Bool) :
    t.flatten sequences = .error (.notAMapping t.kind) ∧ fault? t.rootKeys = none := by
  match t with
  | map _ | leaf (.object _) => exact absurd rfl ht
  | list _ | leaf (.array _) | leaf .null | leaf (.bool _) | leaf (.number _) | leaf (.string _) =>
    exact ⟨rfl, rfl⟩

/-- A tree is refused if it is no mapping, or else for the first key in document order that is not a
string, with the path of the mapping that has the key. Both ways to treat sequences succeed on the
same trees and refuse the others with the same error. -/
theorem flatten_outcome (t : Tree) :
    (∀ sequences kind, t.flatten sequences = .error (.notAMapping kind) ↔
      t.kind = kind ∧ kind ≠ .mapping) ∧
    (∀ sequences path key, t.flatten sequences = .error (.keyNotString path key) ↔
      fault? t.rootKeys = some (path, key)) ∧
    (∀ sequences, (∃ flat, t.flatten sequences = .ok flat) ↔ t.kind = .mapping ∧ t.Named) ∧
    (t.flatten true).map (fun _ => ()) = (t.flatten false).map fun _ => () := by
  by_cases ht : t.kind = .mapping
  · have hstops := stopsAt_flatten ht
    refine ⟨fun sequences kind => ?_, fun sequences _ _ => (hstops sequences).error_iff,
      fun sequences => ?_, (hstops true).outcome_eq (hstops false)⟩
    · have hkind : ¬ (t.kind = kind ∧ kind ≠ .mapping) := fun h => h.2 (h.1 ▸ ht)
      simp only [hkind, iff_false]
      exact (hstops sequences).ne_notAMapping
    · rw [(hstops sequences).exists_ok_iff, fault?_rootKeys_iff ht]
      simp [ht]
  · have hrefused := flatten_of_not_mapping ht
    refine ⟨fun sequences kind => ?_, fun sequences path key => ?_, fun sequences => ?_, ?_⟩
    · rw [(hrefused sequences).1]
      simp only [Except.error.injEq, Error.notAMapping.injEq]
      exact ⟨fun h => ⟨h, h ▸ ht⟩, fun h => h.1⟩
    · rw [(hrefused sequences).1, (hrefused sequences).2]
      simp
    · rw [(hrefused sequences).1]
      simp [ht]
    · rw [(hrefused true).1, (hrefused false).1]

/-- A key in a sequence that is kept, behind a key of the same mapping that is a string. -/
example : (map [(.string "a", list [leaf .null, map [(.string "b", leaf .null),
    (.bool true, leaf .null)]])]).flatten false = .error (.keyNotString "a.1" (.bool true)) := rfl

end IndexMapping.Tree
