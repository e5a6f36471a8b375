import IndexMapping.Proofs.Flat.Contents
import IndexMapping.Proofs.Schema.Decoding

/-! The flat view of a mappings document. It has one path for each property, with its kind, as
long as no name has a dot: the names of types and properties alternate with fixed ones, so that
they cannot be taken for these. Hence two documents compare as equal if and only if they have the
same properties. -/

namespace IndexMapping

/-! ### Well-named documents -/

mutual

/-- Names are distinct at every level and have no dots. -/
inductive Property.WellNamed : Property → Prop
  | scalar (kind : String) : Property.WellNamed (.scalar kind)
  | object (kind : String) {ps : Properties} (h : Properties.WellNamed ps) :
      Property.WellNamed (.object kind ps)

inductive Properties.WellNamed : Properties → Prop
  | nil : Properties.WellNamed []
  | cons {name : String} {p : Property} {ps : Properties} (dotless : Tree.Dotless name)
      (fresh : name ∉ ps.map (·.1)) (value : Property.WellNamed p)
      (rest : Properties.WellNamed ps) : Properties.WellNamed ((name, p) :: ps)

end

structure Document.WellNamed (d : Document) : Prop where
  distinct : (d.mappings.map (·.1)).Nodup
  dotless : ∀ m ∈ d.mappings, Tree.Dotless m.1
  properties : ∀ m ∈ d.mappings, Properties.WellNamed m.2

/-! ### Entries -/

/-- One property of a type: the names that lead to it, and its kind. -/
structure Entry where
  type : String
  names : List String
  kind : String
  deriving DecidableEq

mutual

/-- The kinds of a property and of the properties in it, with the names that lead to them. -/
def Property.entries : Property → List (List String × String)
  | .scalar kind => [([], kind)]
  | .object kind ps => ([], kind) :: Properties.entries ps

def Properties.entries : Properties → List (List String × String)
  | [] => []
  | (name, p) :: ps => (p.entries.map fun (ns, k) => (name :: ns, k)) ++ Properties.entries ps

end

def Document.entries (d : Document) : List Entry :=
  d.mappings.flatMap fun (type, ps) => (Properties.entries ps).map fun (ns, k) => ⟨type, ns, k⟩

namespace Entry

/-- The steps below a type, or a property, that lead to the kind. -/
def tail (names : List String) : List String := names.flatMap (["properties", ·]) ++ ["type"]

/-- `mappings.<type>.properties.<name>.type`, with more of `properties.<name>` for inner names. -/
def path (x : Entry) : String := String.intercalate "." ("mappings" :: x.type :: tail x.names)

/-- What the flat view has of the entry. -/
def leaf (x : Entry) : String × Json := (x.path, .string x.kind)

example : path ⟨"feed_item", ["b", "type"], "text"⟩ =
    "mappings.feed_item.properties.b.properties.type.type" := by decide

/-- The names in the path have no dots. -/
structure Dotless (x : Entry) : Prop where
  type : Tree.Dotless x.type
  names : ∀ n ∈ x.names, Tree.Dotless n

theorem path_eq (x : Entry) :
    x.path = (tail x.names).foldl Tree.step (Tree.step "mappings" x.type) := by
  have hjoin : ∀ (s : String) (ss : List String),
      String.intercalate "." (s :: ss) = ss.foldl Tree.step s := by
    intro s ss
    induction ss generalizing s with
    | nil => rfl
    | cons t ss ih => exact ih (Tree.step s t)
  exact hjoin "mappings" (x.type :: tail x.names)

theorem tail_injective {ns ns' : List String} (h : tail ns = tail ns') : ns = ns' := by
  induction ns generalizing ns' with
  | nil =>
    cases ns' with
    | nil => rfl
    | cons n' ns' => simp [tail] at h
  | cons n ns ih =>
    cases ns' with
    | nil => simp [tail] at h
    | cons n' ns' =>
      obtain ⟨hn, htail⟩ : n = n' ∧ tail ns = tail ns' := by simpa [tail] using h
      rw [hn, ih htail]

theorem dotless_tail {ns : List String} (h : ∀ n ∈ ns, Tree.Dotless n) :
    ∀ s ∈ tail ns, Tree.Dotless s := by
  intro s hs
  rw [tail, List.mem_append, List.mem_flatMap] at hs
  rcases hs with ⟨n, hn, hs⟩ | hs
  · rcases List.mem_pair.1 hs with rfl | rfl
    · decide
    · exact h s hn
  · obtain rfl := List.mem_singleton.1 hs
    decide

/-- A path without dots in its names can be split at the dots. -/
theorem splitOn_path {x : Entry} (hx : x.Dotless) : x.path.toList.splitOn '.' =
    ("mappings" :: x.type :: tail x.names).map String.toList := by
  rw [path, String.toList_intercalate]
  refine List.splitOn_intercalate '.' ?_ (List.cons_ne_nil _ _)
  rw [List.forall_mem_map, List.forall_mem_cons, List.forall_mem_cons]
  exact ⟨by decide, hx.type, dotless_tail hx.names⟩

/-- The entries of one path differ in their kinds at most. -/
theorem eq_of_path {x y : Entry} (hx : x.Dotless) (hy : y.Dotless) (hpath : x.path = y.path)
    (hkind : x.kind = y.kind) : x = y := by
  have hsplit := splitOn_path hx
  rw [hpath, splitOn_path hy] at hsplit
  have hsegments := List.map_injective_iff.2 (fun _ _ => String.toList_injective) hsplit
  obtain ⟨htype, htail⟩ := List.cons.inj (List.cons.inj hsegments).2
  obtain ⟨type, names, kind⟩ := x
  obtain ⟨type', names', kind'⟩ := y
  cases htype
  cases tail_injective htail
  cases hkind
  rfl

end Entry

/-! ### The leaves of a document -/

section

variable {sequences : Bool}

mutual

theorem Property.leaves_encode (path : String) : ∀ p : Property,
    p.encode.leaves sequences path =
      p.entries.map fun (ns, k) => ((Entry.tail ns).foldl Tree.step path, .string k)
  | .scalar kind => rfl
  | .object kind ps => by
    rw [Property.encode, Json.leaves, Json.memberLeaves, Json.memberLeaves, Json.memberLeaves,
      Json.leaves, Json.leaves, Properties.leaves_encode path ps, List.append_nil,
      Property.entries]
    rfl

theorem Properties.leaves_encode (path : String) : ∀ ps : Properties,
    Json.memberLeaves sequences (Tree.step (Tree.step path "properties"))
        (Property.encodeMembers ps) =
      (Properties.entries ps).map fun (ns, k) => ((Entry.tail ns).foldl Tree.step path, .string k)
  | [] => rfl
  | (name, p) :: ps => by
    rw [Property.encodeMembers, Json.memberLeaves, Property.leaves_encode _ p,
      Properties.leaves_encode path ps, Properties.entries, List.map_append, List.map_map]
    rfl

end

theorem Document.leaves_encode (d : Document) :
    Json.memberLeaves sequences id
        [("mappings", .object (d.mappings.map fun m => (m.1, Document.encodeMapping m.2)))] =
      d.entries.map Entry.leaf := by
  obtain ⟨ms⟩ := d
  rw [Json.memberLeaves, Json.memberLeaves, Json.leaves, List.append_nil, id, entries]
  induction ms with
  | nil => rfl
  | cons m ms ih =>
    obtain ⟨type, ps⟩ := m
    rw [List.map_cons, Json.memberLeaves, ih, List.flatMap_cons, List.map_append, encodeMapping,
      Json.leaves, Json.memberLeaves, Json.memberLeaves, Json.leaves, List.append_nil,
      Properties.leaves_encode, List.map_map]
    congr 1
    refine List.map_congr_left fun e _ => ?_
    rw [Function.comp_apply, Entry.leaf, Entry.path_eq]

end

/-! ### What well-named documents have -/

/-- The paths of the leaves of the value are distinct: its names are distinct and have no dots. -/
def Json.WellNamed (sequences : Bool) (v : Json) : Prop := v.Distinct ∧ v.DotlessNames sequences

theorem Json.wellNamed_nil : (Json.object []).WellNamed sequences :=
  ⟨.object List.nodup_nil nofun, .object nofun nofun⟩

theorem Json.wellNamed_string (s : String) : (Json.string s).WellNamed sequences :=
  ⟨.string s, .string s⟩

theorem Json.wellNamed_cons {name : String} {v : Json} {ms : List (String × Json)}
    (dotless : Tree.Dotless name) (fresh : name ∉ ms.map (·.1)) (hv : v.WellNamed sequences)
    (h : (Json.object ms).WellNamed sequences) :
    (Json.object ((name, v) :: ms)).WellNamed sequences := by
  obtain ⟨hdistinct, hdot⟩ := h
  cases hdot with
  | object names values =>
    exact ⟨.object (List.nodup_cons.2 ⟨fresh, hdistinct.names_nodup⟩)
        (List.forall_mem_cons.2 ⟨hv.1, fun _ => hdistinct.of_member⟩),
      .object (List.forall_mem_cons.2 ⟨dotless, names⟩) (List.forall_mem_cons.2 ⟨hv.2, values⟩)⟩

mutual

theorem Property.WellNamed.encode {p : Property} : p.WellNamed → p.encode.WellNamed sequences
  | .scalar kind => by
    rw [Property.encode]
    exact Json.wellNamed_cons (by decide) (by decide) (Json.wellNamed_string kind)
      Json.wellNamed_nil
  | .object kind h => by
    rw [Property.encode]
    exact Json.wellNamed_cons (by decide) (by decide : "type" ∉ ["properties"])
      (Json.wellNamed_string kind)
      (Json.wellNamed_cons (by decide) List.not_mem_nil h.encode Json.wellNamed_nil)

theorem Properties.WellNamed.encode {ps : Properties} : Properties.WellNamed ps →
    (Json.object (Property.encodeMembers ps)).WellNamed sequences
  | .nil => Json.wellNamed_nil
  | .cons dotless fresh value rest => by
    rw [← Property.names_encodeMembers] at fresh
    exact Json.wellNamed_cons dotless fresh value.encode rest.encode

end

mutual

theorem Property.WellNamed.entries {p : Property} (h : p.WellNamed) :
    ∀ e ∈ p.entries, ∀ n ∈ e.1, Tree.Dotless n :=
  match h with
  | .scalar kind => by simp [Property.entries]
  | .object kind h => by
    rw [Property.entries, List.forall_mem_cons]
    exact ⟨nofun, h.entries⟩

theorem Properties.WellNamed.entries {ps : Properties} (h : Properties.WellNamed ps) :
    ∀ e ∈ Properties.entries ps, ∀ n ∈ e.1, Tree.Dotless n :=
  match h with
  | .nil => nofun
  | .cons dotless _ value rest => by
    rw [Properties.entries, List.forall_mem_append, List.forall_mem_map]
    exact ⟨fun e he => List.forall_mem_cons.2 ⟨dotless, value.entries e he⟩, rest.entries⟩

end

namespace Document.WellNamed

variable {d d' : Document}

theorem encode (hd : d.WellNamed) (sequences : Bool) : d.encode.WellNamed sequences := by
  obtain ⟨ms⟩ := d
  obtain ⟨distinct, dotless, properties⟩ := hd
  refine Json.wellNamed_cons (by decide) List.not_mem_nil ?_ Json.wellNamed_nil
  induction ms with
  | nil => exact Json.wellNamed_nil
  | cons m ms ih =>
    obtain ⟨hfresh, distinct⟩ := List.nodup_cons.1 distinct
    obtain ⟨hm, dotless⟩ := List.forall_mem_cons.1 dotless
    obtain ⟨hps, properties⟩ := List.forall_mem_cons.1 properties
    refine Json.wellNamed_cons hm ?_ ?_ (ih distinct dotless properties)
    · rwa [List.map_map]
    · exact Json.wellNamed_cons (by decide) List.not_mem_nil hps.encode Json.wellNamed_nil

theorem dotless_entries (hd : d.WellNamed) : ∀ x ∈ d.entries, x.Dotless := by
  intro x hx
  obtain ⟨m, hm, hx⟩ := List.mem_flatMap.1 hx
  obtain ⟨e, he, rfl⟩ := List.mem_map.1 hx
  exact ⟨hd.dotless m hm, (hd.properties m hm).entries e he⟩

theorem nodup_paths (hd : d.WellNamed) : ((d.entries.map Entry.leaf).map (·.1)).Nodup := by
  obtain ⟨hdistinct, hdot⟩ := hd.encode true
  rw [← Document.leaves_encode]
  exact Json.nodup_rootLeaves hdistinct hdot

theorem flatten_eq (hd : d.WellNamed) (sequences : Bool) :
    d.encode.flatten sequences = .ok (.ofList (d.entries.map Entry.leaf)) := by
  rw [← Document.leaves_encode]
  exact Json.flatten_object (hd.encode sequences).1

theorem leaf_mem_iff (hd : d.WellNamed) {x : Entry} (hx : x.Dotless) :
    x.leaf ∈ d.entries.map Entry.leaf ↔ x ∈ d.entries := by
  rw [List.mem_map]
  constructor
  · rintro ⟨y, hy, hleaf⟩
    obtain ⟨hpath, hkind⟩ := Prod.mk.inj hleaf
    exact Entry.eq_of_path (hd.dotless_entries y hy) hx hpath (Json.string.inj hkind) ▸ hy
  · intro h
    exact ⟨x, h, rfl⟩

/-- The flat views are the same if and only if the documents have the same entries. -/
theorem same_iff (hd : d.WellNamed) (hd' : d'.WellNamed) :
    FlatMap.Same (.ofList (d.entries.map Entry.leaf)) (.ofList (d'.entries.map Entry.leaf)) ↔
      ∀ x, x ∈ d.entries ↔ x ∈ d'.entries := by
  rw [FlatMap.Same, SortedMap.agree_ofList_iff hd.nodup_paths hd'.nodup_paths,
    List.forall_mem_map, List.forall_mem_map]
  constructor
  · rintro ⟨hforth, hback⟩ x
    constructor
    · intro hx
      obtain ⟨w, hw, hsame⟩ := hforth x hx
      rw [Json.same_string_iff.1 hsame] at hw
      exact (hd'.leaf_mem_iff (hd.dotless_entries x hx)).1 hw
    · intro hx
      obtain ⟨v, hv, hsame⟩ := hback x hx
      obtain ⟨y, -, hleaf⟩ := List.mem_map.1 hv
      obtain ⟨-, rfl⟩ := Prod.mk.inj hleaf
      rw [← Json.same_string_iff.1 hsame] at hv
      exact (hd.leaf_mem_iff (hd'.dotless_entries x hx)).1 hv
  · intro h
    exact ⟨fun x hx => ⟨_, List.mem_map_of_mem ((h x).1 hx), Json.same_string_iff.2 rfl⟩,
      fun x hx => ⟨_, List.mem_map_of_mem ((h x).2 hx), Json.same_string_iff.2 rfl⟩⟩

end Document.WellNamed

/-- The flat view of a document has one leaf for each of its entries, and documents compare as
equal if and only if they have the same entries. -/
theorem Document.compare_entries {d d' : Document} (hd : d.WellNamed) (hd' : d'.WellNamed)
    (sequences : Bool) :
    ∃ e a c, d.encode.flatten sequences = .ok e ∧ d'.encode.flatten sequences = .ok a ∧
      e.toList.Perm (d.entries.map Entry.leaf) ∧ a.toList.Perm (d'.entries.map Entry.leaf) ∧
      Json.compare sequences d.encode d'.encode = .ok c ∧
      (c.isEqual = true ↔ ∀ x, x ∈ d.entries ↔ x ∈ d'.entries) := by
  have he := hd.flatten_eq sequences
  have ha := hd'.flatten_eq sequences
  obtain ⟨c, hc, hequal⟩ :=
    Json.exists_compare_iff (hd.encode sequences).1 (hd'.encode sequences).1 he ha
  exact ⟨_, _, c, he, ha, SortedMap.perm_ofList hd.nodup_paths,
    SortedMap.perm_ofList hd'.nodup_paths, hc, hequal.trans (hd.same_iff hd')⟩

/-- A document whose names are those of the structure, and with a type that has no properties. -/
def Document.namesakes : Document :=
  ⟨[("properties",
      [("type", .object "object" [("properties", .scalar "text"), ("type", .object "" [])]),
        ("", .scalar "long")]),
    ("mappings", [])]⟩

/-- The same properties in another order. -/
def Document.reordered : Document :=
  ⟨[("properties",
      [("", .scalar "long"),
        ("type", .object "object" [("type", .scalar ""), ("properties", .scalar "text")])])]⟩

theorem Document.compare_entries_namesakes : namesakes.WellNamed ∧ reordered.WellNamed ∧
    ∃ e a c, namesakes.encode.flatten true = .ok e ∧ reordered.encode.flatten true = .ok a ∧
      e.toList.Perm (namesakes.entries.map Entry.leaf) ∧
      a.toList.Perm (reordered.entries.map Entry.leaf) ∧
      Json.compare true namesakes.encode reordered.encode = .ok c ∧ c.isEqual = true := by
  have hinner : Properties.WellNamed [("properties", .scalar "text"), ("type", .object "" [])] :=
    .cons (by decide) (by decide) (.scalar _) (.cons (by decide) (by decide) (.object _ .nil) .nil)
  have hinner' : Properties.WellNamed [("type", .scalar ""), ("properties", .scalar "text")] :=
    .cons (by decide) (by decide) (.scalar _) (.cons (by decide) (by decide) (.scalar _) .nil)
  have hnamesakes : namesakes.WellNamed := by
    refine ⟨by decide, by decide, List.forall_mem_cons.2 ⟨?_, List.forall_mem_singleton.2 .nil⟩⟩
    exact .cons (by decide) (by decide) (.object _ hinner)
      (.cons (by decide) (by decide) (.scalar _) .nil)
  have hreordered : reordered.WellNamed := by
    refine ⟨by decide, by decide, List.forall_mem_singleton.2 ?_⟩
    exact .cons (by decide) (by decide) (.scalar _)
      (.cons (by decide) (by decide) (.object _ hinner') .nil)
  have hperm : namesakes.entries.Perm reordered.entries := by decide
  obtain ⟨e, a, c, he, ha, hflat, hflat', hc, hequal⟩ :=
    compare_entries hnamesakes hreordered true
  exact ⟨hnamesakes, hreordered, e, a, c, he, ha, hflat, hflat', hc,
    hequal.2 fun _ => hperm.mem_iff⟩

end IndexMapping
