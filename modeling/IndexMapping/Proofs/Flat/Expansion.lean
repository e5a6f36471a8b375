import Mathlib.Logic.Relation
import IndexMapping.Proofs.Flat.Leaves

/-! Composite leaves and the trees that they stand for. A leaf may be replaced by the tree of its
value, anywhere in a tree: neither flattening nor the conversion into JSON tells the difference,
whether they succeed or not. -/

namespace IndexMapping.Tree

/-- In one place of the first tree, a leaf is replaced by the tree of its value. -/
inductive Expands : Tree → Tree → Prop
  | leaf {v : Json} (hv : v.Distinct) : Expands (leaf v) (ofJson v)
  | item {t u : Tree} (before after : List Tree) (h : Expands t u) :
      Expands (list (before ++ t :: after)) (list (before ++ u :: after))
  | entry {t u : Tree} (before after : List (Json × Tree)) (key : Json) (h : Expands t u) :
      Expands (map (before ++ (key, t) :: after)) (map (before ++ (key, u) :: after))

/-- The trees are converted alike, and flattening adds the same for them, at all paths. -/
structure Alike (t u : Tree) : Prop where
  toJson : ∀ path, toJson path t = toJson path u
  add : ∀ sequences path flat, add sequences path flat t = add sequences path flat u

variable {t u : Tree} {path : String} {sequences : Bool} {flat : FlatMap} {v : Json}

/-! ### One part of a tree -/

namespace Alike

theorem itemsToJson (h : Alike t u) (before after : List Tree) (index : Nat) :
    itemsToJson path index (before ++ t :: after) =
      itemsToJson path index (before ++ u :: after) := by
  induction before generalizing index with
  | nil => simp only [List.nil_append, Tree.itemsToJson, h.toJson]
  | cons x before ih => simp only [List.cons_append, Tree.itemsToJson, ih]

theorem addItems (h : Alike t u) (before after : List Tree) (index : Nat) (flat : FlatMap) :
    addItems sequences path index flat (before ++ t :: after) =
      addItems sequences path index flat (before ++ u :: after) := by
  induction before generalizing index flat with
  | nil => simp only [List.nil_append, Tree.addItems, h.add]
  | cons x before ih => simp only [List.cons_append, Tree.addItems, ih]

variable (h : Alike t u) (before after : List (Json × Tree)) (key : Json)

include h

theorem entriesToJson (done : List (String × Json)) :
    entriesToJson path done (before ++ (key, t) :: after) =
      entriesToJson path done (before ++ (key, u) :: after) := by
  induction before generalizing done with
  | nil => simp only [List.nil_append, Tree.entriesToJson, h.toJson]
  | cons e before ih => simp only [List.cons_append, Tree.entriesToJson, ih]

theorem addEntries (flat : FlatMap) :
    addEntries sequences path flat (before ++ (key, t) :: after) =
      addEntries sequences path flat (before ++ (key, u) :: after) := by
  induction before generalizing flat with
  | nil => simp only [List.nil_append, Tree.addEntries, h.add]
  | cons e before ih => simp only [List.cons_append, Tree.addEntries, ih]

theorem addRoot (flat : FlatMap) :
    addRoot sequences flat (before ++ (key, t) :: after) =
      addRoot sequences flat (before ++ (key, u) :: after) := by
  induction before generalizing flat with
  | nil => simp only [List.nil_append, Tree.addRoot, h.add]
  | cons e before ih => simp only [List.cons_append, Tree.addRoot, ih]

end Alike

/-! ### Trees -/

/-- What holds of a leaf and of the tree of its value goes up to the trees around them. -/
theorem Expands.alike (h : Expands t u) : Alike t u := by
  induction h with
  | leaf hv => exact ⟨fun path => (toJson_ofJson hv).symm, fun _ _ _ => add_leaf hv⟩
  | item before after _ ih =>
    refine ⟨fun path => ?_, fun sequences path flat => ?_⟩
    · rw [Tree.toJson, Tree.toJson, ih.itemsToJson]
    · rw [Tree.add, Tree.add, ih.itemsToJson, ih.addItems]
  | entry before after key _ ih =>
    refine ⟨fun path => ?_, fun sequences path flat => ?_⟩
    · rw [Tree.toJson, Tree.toJson, ih.entriesToJson]
    · rw [Tree.add, Tree.add, ih.addEntries]

theorem foldl_addJson (ms : List (String × Json)) (flat : FlatMap) :
    ms.foldl (fun flat (n, v) => addJson sequences n flat v) flat =
      flat.insertAll (Json.memberLeaves sequences id ms) := by
  induction ms generalizing flat with
  | nil => rfl
  | cons m ms ih =>
    obtain ⟨n, v⟩ := m
    have hadd : addJson sequences n flat v = flat.insertAll (Json.leaves sequences n v) :=
      addJson_eq
    rw [List.foldl_cons, ih, Json.memberLeaves, SortedMap.insertAll_append, id, ← hadd]

theorem flatten_leaf (hv : v.Distinct) (sequences : Bool) :
    (leaf v).flatten sequences = v.flatten sequences := by
  cases v with
  | null | bool b | number n | string s | array xs => rfl
  | object ms => rw [flatten, foldl_addJson, Json.flatten_object hv]; rfl

theorem Expands.flatten_eq (h : Expands t u) (sequences : Bool) :
    t.flatten sequences = u.flatten sequences := by
  cases h with
  | leaf hv => exact flatten_leaf hv sequences
  | item => rfl
  | entry before after key h => exact h.alike.addRoot before after key .empty

theorem flatten_eq_of_eqvGen (h : Relation.EqvGen Expands t u) (sequences : Bool) :
    t.flatten sequences = u.flatten sequences := by
  induction h with
  | rel t u h => exact h.flatten_eq sequences
  | refl t => rfl
  | symm t u _ ih => exact ih.symm
  | trans t u w _ _ ih ih' => exact ih.trans ih'

/-- Replacing leaves by the trees of their values, or the other way round, any number of times and
anywhere in a tree, leaves the flat view as it is, and so it does the error if there is none. In
particular a leaf that is the whole tree is flattened like its value. The tree of a value is
converted back into the value, with the members in their order. -/
theorem flatten_expands :
    (∀ t u, Relation.EqvGen Expands t u → ∀ sequences, t.flatten sequences = u.flatten sequences) ∧
      ∀ v : Json, v.Distinct → (∀ sequences, (leaf v).flatten sequences = v.flatten sequences) ∧
        ∀ path, (ofJson v).toJson path = .ok v :=
  ⟨fun _ _ h => flatten_eq_of_eqvGen h, fun _ hv => ⟨flatten_leaf hv, fun _ => toJson_ofJson hv⟩⟩

/-- A value with members out of order, and an object in an array. -/
def composite : Json :=
  .array [.number (.integer 2), .object [("d", .bool true), ("c", .null)]]

/-- A tree in a sequence and beside it. -/
def surrounded (t : Tree) : Tree := map [(.string "a", list [leaf .null, t]), (.string "b", t)]

theorem flatten_expands_composite :
    Relation.EqvGen Expands (surrounded (leaf composite)) (surrounded (ofJson composite)) ∧
      composite.Distinct ∧
      (∀ sequences, (surrounded (leaf composite)).flatten sequences =
        (surrounded (ofJson composite)).flatten sequences) ∧
      (ofJson composite).toJson "a.1" = .ok composite := by
  have hv : composite.Distinct := by decide
  have hitem : Expands (list [leaf .null, leaf composite]) (list [leaf .null, ofJson composite]) :=
    .item [leaf .null] [] (.leaf hv)
  have h : Relation.EqvGen Expands (surrounded (leaf composite)) (surrounded (ofJson composite)) :=
    .trans _ _ _ (.rel _ _ (.entry [] _ _ hitem)) (.rel _ _ (.entry [_] [] _ (.leaf hv)))
  exact ⟨h, hv, flatten_expands.1 _ _ h, (flatten_expands.2 _ hv).2 "a.1"⟩

end IndexMapping.Tree
