import Mathlib.Data.List.Nodup
import IndexMapping.Descriptor.TypeSet

/-! Sets of descriptors. Insertion adds a descriptor at the end and is refused if the identities
would no longer be distinct. What is stored differs from what was given in its bare references
alone, which are read within its package. -/

namespace IndexMapping

/-! ### Qualified references -/

mutual

/-- The types are the same but for bare references, which are read within the package. -/
inductive FieldType.Qualified (package : Option String) : FieldType → FieldType → Prop
  | scalar (source : String) : FieldType.Qualified package (.scalar source) (.scalar source)
  | bare {id : TypeId} (h : '.' ∉ id.text.toList) :
      FieldType.Qualified package (.reference id) (.reference (.ofName package id.text))
  | dotted {id : TypeId} (h : '.' ∈ id.text.toList) :
      FieldType.Qualified package (.reference id) (.reference id)
  | inline {fs gs : List Field} (h : Fields.Qualified package fs gs) :
      FieldType.Qualified package (.inline fs) (.inline gs)

inductive Fields.Qualified (package : Option String) : List Field → List Field → Prop
  | nil : Fields.Qualified package [] []
  | cons {name : String} {σ τ : FieldType} {tags : SortedMap String} {fs gs : List Field}
      (type : FieldType.Qualified package σ τ) (rest : Fields.Qualified package fs gs) :
      Fields.Qualified package (⟨name, σ, tags⟩ :: fs) (⟨name, τ, tags⟩ :: gs)

end

theorem TypeId.isQualified_iff {id : TypeId} : id.isQualified = true ↔ '.' ∈ id.text.toList := by
  simp [isQualified]

mutual

theorem FieldType.qualified_qualify (package : Option String) :
    ∀ τ : FieldType, FieldType.Qualified package τ (τ.qualify package)
  | .scalar source => .scalar source
  | .reference id => by
    rw [FieldType.qualify, TypeId.qualify]
    split
    next h => exact .dotted (TypeId.isQualified_iff.1 h)
    next h => exact .bare fun hdot => h (TypeId.isQualified_iff.2 hdot)
  | .inline fs => .inline (Fields.qualified_qualifyFields package fs)

theorem Fields.qualified_qualifyFields (package : Option String) :
    ∀ fs : List Field, Fields.Qualified package fs (FieldType.qualifyFields package fs)
  | [] => .nil
  | ⟨_, τ, _⟩ :: fs =>
    .cons (FieldType.qualified_qualify package τ) (Fields.qualified_qualifyFields package fs)

end

namespace TypeSet

variable {s s' : TypeSet} {d : TypeDescriptor} {id : TypeId}

/-! ### Identities -/

/-- No two descriptors have the same identity. -/
def Distinct (s : TypeSet) : Prop := (s.types.map (·.id)).Nodup

theorem distinct_empty : empty.Distinct := List.nodup_nil

theorem get?_eq_some_iff (hs : s.Distinct) : s.get? id = some d ↔ d ∈ s.types ∧ d.id = id := by
  constructor
  · intro h
    exact ⟨List.mem_of_find?_eq_some h, by simpa using List.find?_some h⟩
  · rintro ⟨hd, rfl⟩
    cases hfind : s.get? d.id with
    | none => simpa using List.find?_eq_none.1 hfind d hd
    | some d' =>
      have hid : d'.id = d.id := by simpa using List.find?_some hfind
      rw [List.inj_on_of_nodup_map hs (List.mem_of_find?_eq_some hfind) hd hid]

/-- The order of the descriptors does not matter to look-up. -/
theorem get?_eq_of_perm (hs : s.Distinct) (h : s.types.Perm s'.types) (id : TypeId) :
    s.get? id = s'.get? id := by
  have hs' : s'.Distinct := (h.map _).nodup hs
  ext d
  rw [get?_eq_some_iff hs, get?_eq_some_iff hs', h.mem_iff]

theorem get?_eq_none_iff : s.get? id = none ↔ id ∉ s.types.map (·.id) := by
  simp [get?]

/-! ### Insertion -/

theorem id_qualified (d : TypeDescriptor) : d.qualified.id = d.id := rfl

theorem distinct_push :
    Distinct ⟨s.types ++ [d.qualified]⟩ ↔ s.Distinct ∧ s.get? d.id = none := by
  rw [Distinct, List.map_append, List.nodup_append_comm, get?_eq_none_iff, and_comm]
  exact List.nodup_cons

/-- A descriptor is inserted at the end, as long as the identities stay distinct. -/
theorem insert_eq_ok_iff (hs : s.Distinct) : s.insert d = .ok (id, s') ↔
    id = d.id ∧ s' = ⟨s.types ++ [d.qualified]⟩ ∧ s'.Distinct := by
  rw [insert]
  cases hfind : s.get? d.id with
  | some d' =>
    refine ⟨nofun, ?_⟩
    rintro ⟨-, rfl, hdistinct⟩
    rw [(distinct_push.1 hdistinct).2] at hfind
    nomatch hfind
  | none =>
    simp only [Except.ok.injEq, Prod.mk.injEq]
    constructor
    · rintro ⟨rfl, rfl⟩
      exact ⟨rfl, rfl, distinct_push.2 ⟨hs, hfind⟩⟩
    · rintro ⟨rfl, rfl, -⟩
      exact ⟨rfl, rfl⟩

end TypeSet

end IndexMapping
