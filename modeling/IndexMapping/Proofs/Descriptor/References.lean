import IndexMapping.Proofs.Descriptor.Insertions
import Mathlib.Data.List.Forall2

/-! What the references of a stored type lead to. A bare reference that is read within a package
finds the type of that name in that package, and no other type, as long as no type name has a dot:
then the last dot of an identity separates its package from its name. Reading references within
their package a second time changes nothing. -/

namespace IndexMapping

/-! ### Package and name in an identity -/

namespace TypeId

variable {package package' : Option String} {name name' : String}

theorem eq_iff {a b : TypeId} : a = b ↔ a.text.toList = b.text.toList := by
  obtain ⟨a⟩ := a
  obtain ⟨b⟩ := b
  rw [TypeId.mk.injEq, String.toList_inj]

theorem ofName_of_empty (h : package.getD "" = "") : ofName package name = ⟨name⟩ := by
  cases package with
  | none => rfl
  | some p =>
    have : p = "" := h
    simp [ofName, this]

theorem toList_ofName (h : package.getD "" ≠ "") :
    (ofName package name).text.toList = (package.getD "").toList ++ '.' :: name.toList := by
  cases package with
  | none => exact absurd rfl h
  | some p =>
    have hne : p ≠ "" := h
    simp [ofName, hne]

/-- What follows the last dot tells two lists apart, and so does what precedes it. -/
theorem append_dot_inj {as bs cs ds : List Char} (hbs : '.' ∉ bs) (hds : '.' ∉ ds) :
    as ++ '.' :: bs = cs ++ '.' :: ds ↔ as = cs ∧ bs = ds := by
  refine ⟨fun h => ?_, by rintro ⟨rfl, rfl⟩; rfl⟩
  rcases List.append_eq_append_iff.1 h with ⟨x, rfl, hx⟩ | ⟨x, rfl, hx⟩
  · cases x with
    | nil => simpa using hx
    | cons c x =>
      obtain ⟨-, rfl⟩ := List.cons.inj hx
      simp at hbs
  · cases x with
    | nil => simpa [eq_comm] using hx
    | cons c x =>
      obtain ⟨-, rfl⟩ := List.cons.inj hx
      simp at hds

/-- Names without dots give the same identity only if they are the same and so are their packages.
An absent package is the same as an empty one. -/
theorem ofName_inj (hname : '.' ∉ name.toList) (hname' : '.' ∉ name'.toList) :
    ofName package name = ofName package' name' ↔
      name = name' ∧ package.getD "" = package'.getD "" := by
  rw [eq_iff]
  by_cases hp : package.getD "" = "" <;> by_cases hp' : package'.getD "" = ""
  · simp [ofName_of_empty hp, ofName_of_empty hp', hp, hp', String.toList_inj]
  · rw [ofName_of_empty hp, toList_ofName hp']
    refine ⟨fun h => ?_, fun h => absurd (h.2.symm.trans hp) hp'⟩
    simp [h] at hname
  · rw [toList_ofName hp, ofName_of_empty hp']
    refine ⟨fun h => ?_, fun h => absurd (h.2.trans hp') hp⟩
    simp [← h] at hname'
  · rw [toList_ofName hp, toList_ofName hp', append_dot_inj hname hname', String.toList_inj,
      String.toList_inj, and_comm]

/-- A reference that has been read within a package is not changed by reading it again. -/
theorem qualify_ofName (package : Option String) (name : String) :
    (ofName package name).qualify package = ofName package name := by
  by_cases h : package.getD "" = ""
  · rw [ofName_of_empty h, qualify]
    split
    · rfl
    · exact ofName_of_empty h
  · have hdot : (ofName package name).isQualified := by
      rw [isQualified_iff, toList_ofName h]
      simp
    rw [qualify, if_pos hdot]

end TypeId

/-! ### References at any inline depth -/

mutual

/-- The references of a type, at any inline depth, in the order in which they are written. -/
def FieldType.references : FieldType → List TypeId
  | .scalar _ => []
  | .reference id => [id]
  | .inline fs => Fields.references fs

def Fields.references : List Field → List TypeId
  | [] => []
  | ⟨_, type, _⟩ :: fs => type.references ++ Fields.references fs

end

/-- `stored` is `ref`, read within a package if it is bare. -/
structure TypeId.Qualified (package : Option String) (ref stored : TypeId) : Prop where
  bare : '.' ∉ ref.text.toList → stored = .ofName package ref.text
  dotted : '.' ∈ ref.text.toList → stored = ref

variable {package : Option String}

mutual

theorem FieldType.Qualified.references {σ τ : FieldType} :
    FieldType.Qualified package σ τ →
      List.Forall₂ (TypeId.Qualified package) σ.references τ.references
  | .scalar _ => .nil
  | .bare h => .cons ⟨fun _ => rfl, fun hdot => absurd hdot h⟩ .nil
  | .dotted h => .cons ⟨fun hdot => absurd h hdot, fun _ => rfl⟩ .nil
  | .inline h => h.references

theorem Fields.Qualified.references {fs gs : List Field} :
    Fields.Qualified package fs gs →
      List.Forall₂ (TypeId.Qualified package) (Fields.references fs) (Fields.references gs)
  | .nil => .nil
  | .cons type rest => List.rel_append type.references rest.references

end

mutual

/-- References that have been read within their package are not changed by reading them again. -/
theorem FieldType.Qualified.qualify_eq {σ τ : FieldType} :
    FieldType.Qualified package σ τ → τ.qualify package = τ
  | .scalar _ => by rw [FieldType.qualify]
  | .bare _ => by rw [FieldType.qualify, TypeId.qualify_ofName]
  | .dotted h => by rw [FieldType.qualify, TypeId.qualify, if_pos (TypeId.isQualified_iff.2 h)]
  | .inline h => by rw [FieldType.qualify, h.qualifyFields_eq]

theorem Fields.Qualified.qualifyFields_eq {fs gs : List Field} :
    Fields.Qualified package fs gs → FieldType.qualifyFields package gs = gs
  | .nil => by rw [FieldType.qualifyFields]
  | .cons type rest => by rw [FieldType.qualifyFields, type.qualify_eq, rest.qualifyFields_eq]

end

theorem TypeDescriptor.Qualified.qualified_eq {d d' : TypeDescriptor} (h : d.Qualified d') :
    d'.qualified = d' := by
  have hfields := h.fields.qualifyFields_eq
  rw [← h.package] at hfields
  rw [TypeDescriptor.qualified, hfields]

/-! ### Look-up of stored references -/

open IndexedSet (History)

/-- An insertion that succeeds is the first one of its identity. -/
theorem IndexedSet.History.find?_eq {ds : List TypeDescriptor}
    {replies : List (Except Error TypeId)} {s : IndexedSet} (h : History ds replies s) {k : Nat}
    {d : TypeDescriptor} (hd : ds[k]? = some d) (hok : replies[k]? = some (.ok d.id)) :
    ds.find? (·.id = d.id) = some d := by
  have hfresh : ∀ j < k, replies[j]? ≠ some (.ok d.id) := by
    rcases h.replied k d hd with ⟨-, hfresh⟩ | ⟨herr, -⟩
    · exact hfresh
    · rw [hok] at herr
      cases herr
  obtain ⟨hk, rfl⟩ := List.getElem?_eq_some_iff.1 hd
  refine List.find?_eq_some_iff_getElem.2 ⟨by simp, k, hk, rfl, fun j hj => ?_⟩
  have hid : ds[j].id ≠ ds[k].id := by
    intro heq
    rcases h.replied j ds[j] (List.getElem?_eq_getElem _) with ⟨hr, -⟩ | ⟨-, i, hi, hr⟩
    · exact hfresh j hj (heq ▸ hr)
    · exact hfresh i (by omega) (heq ▸ hr)
  simpa using hid

namespace TypeSet

/-- A reference that is stored as `stored` leads from a package to the type that is meant. -/
structure Resolves (s : TypeSet) (package : Option String) (ref stored : TypeId) : Prop where
  /-- A bare reference finds the type of its name in the package, if there is one. -/
  bare : '.' ∉ ref.text.toList → ∀ e, s.get? stored = some e ↔
    e ∈ s.types ∧ e.name = ref.text ∧ e.package.getD "" = package.getD ""
  dotted : '.' ∈ ref.text.toList → stored = ref

variable {s : TypeSet} {package : Option String} {ref stored : TypeId}

theorem resolves_of_qualified (hs : s.Distinct) (hnames : ∀ e ∈ s.types, '.' ∉ e.name.toList)
    (h : TypeId.Qualified package ref stored) : s.Resolves package ref stored := by
  refine ⟨fun hbare e => ?_, h.dotted⟩
  rw [h.bare hbare, get?_eq_some_iff hs, TypeDescriptor.id]
  refine and_congr_right fun he => ?_
  rw [TypeId.ofName_inj (hnames e he) hbare]

/-- If no type in a set has a dot in its name, each bare reference of a type in it, at any inline
depth, finds the type of its name in the package of the type that it is written in, or nothing if
the set has no such type. Other references are as they were given. A type that has been stored,
whatever the names, can be moved to another set as it is. -/
theorem stored_references (ds : List TypeDescriptor) (s : TypeSet)
    (replies : List (Except Error TypeId)) (h : (insertAll ds).run .empty = (replies, s)) :
    ((∀ e ∈ s.types, '.' ∉ e.name.toList) →
      ∀ (k : Nat) (d : TypeDescriptor), ds[k]? = some d → replies[k]? = some (.ok d.id) →
        ∃ d', s.get? d.id = some d' ∧
          List.Forall₂ (s.Resolves d.package) (Fields.references d.fields)
            (Fields.references d'.fields)) ∧
    ∀ e ∈ s.types, ∀ t : TypeSet, t.get? e.id = none →
      t.insert e = .ok (e.id, ⟨t.types ++ [e]⟩) := by
  obtain ⟨replies', indexed, -, hrun, hhistory⟩ := IndexedSet.run_insertAll ds
  obtain ⟨rfl, rfl⟩ := Prod.mk.inj (h.symm.trans hrun)
  have hs : indexed.toTypeSet.Distinct := hhistory.agrees.distinct
  have hfound : ∀ id, Option.Rel TypeDescriptor.Qualified (ds.find? (·.id = id))
      (indexed.toTypeSet.get? id) := fun id => hhistory.agrees.get?_eq id ▸ hhistory.found id
  constructor
  · intro hnames k d hd hok
    have hrel := hfound d.id
    rw [hhistory.find?_eq hd hok] at hrel
    obtain ⟨d', hd', hqualified⟩ := SortedMap.exists_of_some_rel hrel
    exact ⟨d', hd', hqualified.fields.references.imp fun _ _ => resolves_of_qualified hs hnames⟩
  · intro e he t ht
    have hrel := hfound e.id
    rw [(get?_eq_some_iff hs).2 ⟨he, rfl⟩] at hrel
    obtain ⟨d, -, hqualified⟩ := SortedMap.exists_of_rel_some hrel
    rw [insert, ht, hqualified.qualified_eq]

/-- Types of one name in three packages, one of which is named like the start of another, and a
type that refers to one of them from within an inline struct. The last type is refused: its dotted
name gives it the identity of the one before. -/
def namesakes : List TypeDescriptor :=
  [⟨"Order", some "a.b", true,
      [⟨"Item", .inline [⟨"Kind", .reference ⟨"Kind"⟩, .empty⟩], .empty⟩,
        ⟨"Other", .reference ⟨"a.Kind"⟩, .empty⟩]⟩,
    ⟨"Kind", some "a", false, []⟩, ⟨"Kind", none, false, []⟩, ⟨"Kind", some "a.b", false, []⟩,
    ⟨"b.Kind", some "a", false, []⟩]

theorem stored_references_namesakes :
    (∀ e ∈ ((insertAll namesakes).run .empty).2.types, '.' ∉ e.name.toList) ∧
      ∃ d', ((insertAll namesakes).run .empty).2.get? ⟨"a.b.Order"⟩ = some d' ∧
        List.Forall₂ (Resolves ((insertAll namesakes).run .empty).2 (some "a.b"))
          [⟨"Kind"⟩, ⟨"a.Kind"⟩] (Fields.references d'.fields) := by
  have hnames : ∀ e ∈ ((insertAll namesakes).run .empty).2.types, '.' ∉ e.name.toList := by
    decide +kernel
  exact ⟨hnames, (stored_references namesakes _ _ rfl).1 hnames 0 _ rfl rfl⟩

end TypeSet

end IndexMapping
