import IndexMapping.Proofs.Schema.Recursion
import IndexMapping.Proofs.SortedMap

/-! What compiling a type under a tag key does not look at: the fields that have no tag under the
key, with all that is in them, the tags under other keys, the names of scalar types and the marks
of annotated types. Two sets that differ in nothing else compile every type alike, to the same
properties or with the same error. -/

namespace IndexMapping

variable {tagKey : String}

/-! ### Fields -/

mutual

/-- The types differ at most in the names of scalars and in what tells lists of fields apart that
are alike. -/
inductive FieldType.Alike (tagKey : String) : FieldType → FieldType → Prop
  | scalar (source source' : String) : FieldType.Alike tagKey (.scalar source) (.scalar source')
  | reference (id : TypeId) : FieldType.Alike tagKey (.reference id) (.reference id)
  | inline {fs gs : List Field} (h : Fields.Alike tagKey fs gs) :
      FieldType.Alike tagKey (.inline fs) (.inline gs)

/-- The lists have the same tagged fields in the same order, with types that are alike. Untagged
fields may stand anywhere in either of them. -/
inductive Fields.Alike (tagKey : String) : List Field → List Field → Prop
  | nil : Fields.Alike tagKey [] []
  | removed {f : Field} {fs gs : List Field} (hf : f.tag? tagKey = none)
      (h : Fields.Alike tagKey fs gs) : Fields.Alike tagKey (f :: fs) gs
  | added {g : Field} {fs gs : List Field} (hg : g.tag? tagKey = none)
      (h : Fields.Alike tagKey fs gs) : Fields.Alike tagKey fs (g :: gs)
  | kept {f g : Field} {fs gs : List Field} {raw : String} (name : f.name = g.name)
      (hf : f.tag? tagKey = some raw) (hg : g.tag? tagKey = some raw)
      (type : FieldType.Alike tagKey f.type g.type) (h : Fields.Alike tagKey fs gs) :
      Fields.Alike tagKey (f :: fs) (g :: gs)

end

namespace FieldType

variable {expand : TypeId → Except Error Properties}

mutual

theorem property_alike {σ τ : FieldType} :
    FieldType.Alike tagKey σ τ → ∀ scope kind : String,
      property tagKey expand scope kind τ = property tagKey expand scope kind σ
  | .scalar _ _, _, _ => by rw [property, property]
  | .reference _, _, _ => rfl
  | .inline h, scope, _ => by rw [property, property, properties_alike h scope []]

/-- Whatever the fields before them, lists that are alike have the same properties or the same
first fault. -/
theorem properties_alike {fs gs : List Field} :
    Fields.Alike tagKey fs gs → ∀ (owner : String) (taken : List String),
      properties tagKey expand owner taken gs = properties tagKey expand owner taken fs
  | .nil, _, _ => rfl
  | .removed hf h, owner, taken => by
    rw [properties_cons_untagged hf, properties_alike h owner taken]
  | .added hg h, owner, taken => by
    rw [properties_cons_untagged hg, properties_alike h owner taken]
  | @Fields.Alike.kept _ ⟨fname, σ, ftags⟩ ⟨gname, τ, gtags⟩ fs gs raw name hf hg type h,
      owner, taken => by
    obtain rfl : fname = gname := name
    have hrest : ∀ taken, properties tagKey expand owner taken gs =
        properties tagKey expand owner taken fs := properties_alike h owner
    have htype : ∀ scope kind, property tagKey expand scope kind τ =
        property tagKey expand scope kind σ := property_alike type
    simp only [properties, hf, hg, htype, hrest]

end

end FieldType

/-! ### Sets -/

/-- The descriptors are of one type and have fields that are alike. -/
structure TypeDescriptor.Alike (tagKey : String) (d e : TypeDescriptor) : Prop where
  name : d.name = e.name
  package : d.package = e.package
  fields : Fields.Alike tagKey d.fields e.fields

theorem TypeDescriptor.Alike.id_eq {d e : TypeDescriptor} (h : d.Alike tagKey e) : d.id = e.id := by
  unfold TypeDescriptor.id
  rw [h.name, h.package]

namespace TypeSet

variable {s s' : TypeSet} {chain : List TypeId} {id : TypeId}

/-- The sets have the same types in the same order, with descriptors that are alike. -/
def Alike (tagKey : String) (s s' : TypeSet) : Prop :=
  List.Forall₂ (TypeDescriptor.Alike tagKey) s.types s'.types

theorem Alike.get? (h : s.Alike tagKey s') (id : TypeId) :
    Option.Rel (TypeDescriptor.Alike tagKey) (s.get? id) (s'.get? id) := by
  unfold TypeSet.get?
  unfold Alike at h
  generalize s.types = ds at h
  generalize s'.types = es at h
  induction h with
  | nil => exact .none
  | @cons d e ds es hd _ ih =>
    by_cases hid : e.id = id
    · have hid' : d.id = id := hd.id_eq.trans hid
      simpa [hid, hid'] using hd
    · have hid' : d.id ≠ id := fun hd' => hid (hd.id_eq.symm.trans hd')
      simpa [hid, hid'] using ih

/-- A chain of types being expanded is the same in both sets, so the same types are met again. -/
theorem Alike.expand_eq (h : s.Alike tagKey s') :
    s'.expand tagKey chain id = s.expand tagKey chain id := by
  induction chain, id using chain_induction (s := s) with
  | step chain id ih =>
    by_cases hid : id ∈ chain
    · rw [expand_of_mem hid, expand_of_mem hid]
    · have hrel := h.get? id
      generalize hd : s.get? id = known at hrel
      generalize he : s'.get? id = known' at hrel
      cases hrel with
      | none => rw [expand_of_unknown hid hd, expand_of_unknown hid he]
      | @some d e hde =>
        have hrefs : s'.expand tagKey (id :: chain) = s.expand tagKey (id :: chain) := by
          funext ref
          exact ih hid d hd ref
        rw [expand_of_known hid hd, expand_of_known hid he, hrefs, hde.name,
          FieldType.properties_alike hde.fields]

end TypeSet

/-! ### Leaving out all that does not matter -/

mutual

/-- The type without what compiling under a tag key does not look at. -/
def FieldType.trimmed (tagKey : String) : FieldType → FieldType
  | .scalar _ => .scalar ""
  | .reference id => .reference id
  | .inline fs => .inline (FieldType.trimmedFields tagKey fs)

/-- The tagged fields, with the one tag that counts. -/
def FieldType.trimmedFields (tagKey : String) : List Field → List Field
  | [] => []
  | ⟨name, type, tags⟩ :: fs =>
    match FieldOf.tag? ⟨name, type, tags⟩ tagKey with
    | none => FieldType.trimmedFields tagKey fs
    | some raw =>
      ⟨name, type.trimmed tagKey, SortedMap.empty.insert tagKey raw⟩ ::
        FieldType.trimmedFields tagKey fs

end

def TypeDescriptor.trimmed (tagKey : String) (d : TypeDescriptor) : TypeDescriptor :=
  { d with annotated := false, fields := FieldType.trimmedFields tagKey d.fields }

def TypeSet.trimmed (tagKey : String) (s : TypeSet) : TypeSet :=
  ⟨s.types.map (·.trimmed tagKey)⟩

theorem FieldOf.tag?_single {τ : Type} {name raw : String} {type : τ} (hraw : raw ≠ "") :
    FieldOf.tag? ⟨name, type, SortedMap.empty.insert tagKey raw⟩ tagKey = some raw := by
  simp [FieldOf.tag?, SortedMap.get?_insert, hraw]

theorem FieldOf.ne_empty_of_tag? {τ : Type} {f : FieldOf τ} {raw : String}
    (h : f.tag? tagKey = some raw) : raw ≠ "" := by
  rintro rfl
  simp [FieldOf.tag?] at h

mutual

theorem FieldType.alike_trimmed : ∀ τ : FieldType, FieldType.Alike tagKey τ (τ.trimmed tagKey)
  | .scalar source => .scalar source ""
  | .reference id => .reference id
  | .inline fs => .inline (FieldType.alike_trimmedFields fs)

theorem FieldType.alike_trimmedFields :
    ∀ fs : List Field, Fields.Alike tagKey fs (FieldType.trimmedFields tagKey fs)
  | [] => .nil
  | ⟨name, type, tags⟩ :: fs => by
    have hrest := FieldType.alike_trimmedFields fs
    cases hf : FieldOf.tag? ⟨name, type, tags⟩ tagKey with
    | none =>
      rw [FieldType.trimmedFields, hf]
      exact .removed hf hrest
    | some raw =>
      rw [FieldType.trimmedFields, hf]
      have hraw : raw ≠ "" := FieldOf.ne_empty_of_tag? hf
      exact .kept rfl hf (FieldOf.tag?_single hraw) (FieldType.alike_trimmed type) hrest

end

namespace TypeSet

theorem alike_trimmed (s : TypeSet) : s.Alike tagKey (s.trimmed tagKey) := by
  unfold Alike trimmed
  rw [List.forall₂_map_right_iff, List.forall₂_same]
  exact fun d _ => ⟨rfl, rfl, FieldType.alike_trimmedFields d.fields⟩

/-- Compiling under a tag key depends on the fields with a tag under the key only, and of these on
their names, on that tag and on the structs that they hold or refer to. So a type compiles as
before, to the same properties or with the same error, when all untagged fields are removed at every
inline depth, or others put in, whatever they refer to, and when tags under other keys, names of
scalar types and marks of annotated types are changed. -/
theorem compile_alike (s : TypeSet) (tagKey : String) (id : TypeId) :
    (s.trimmed tagKey).compile tagKey id = s.compile tagKey id ∧
      ∀ s', s.Alike tagKey s' → s'.compile tagKey id = s.compile tagKey id :=
  ⟨(alike_trimmed s).expand_eq, fun _ h => h.expand_eq⟩

/-- A type with untagged fields that refer to an unknown type and to the type itself. -/
def entangled : TypeSet := ⟨[⟨"Order", none, true, [
  ⟨"Customer", .reference ⟨"Customer"⟩, .empty⟩,
  ⟨"Item", .inline [⟨"Order", .reference ⟨"Order"⟩,
      ⟨[("es-mapping", "")], SortedMap.sorted_singleton _ _⟩⟩],
    ⟨[("es-mapping", "item,object"), ("json", "item")], by decide⟩⟩]⟩]⟩

/-- The type without them. -/
def disentangled : TypeSet := ⟨[⟨"Order", none, false, [
  ⟨"Item", .inline [],
    ⟨[("es-mapping", "item,object")], SortedMap.sorted_singleton _ _⟩⟩]⟩]⟩

theorem compile_alike_entangled :
    entangled.Alike "es-mapping" disentangled ∧
      disentangled.compile "es-mapping" ⟨"Order"⟩ = entangled.compile "es-mapping" ⟨"Order"⟩ ∧
      entangled.compile "es-mapping" ⟨"Order"⟩ = .ok [("item", .object "object" [])] := by
  have halike : entangled.Alike "es-mapping" disentangled :=
    .cons ⟨rfl, rfl, .removed rfl (.kept rfl rfl rfl (.inline (.removed rfl .nil)) .nil)⟩ .nil
  have hcompile := (compile_alike entangled "es-mapping" ⟨"Order"⟩).2 disentangled halike
  have hitem : ∀ scope kind, FieldType.property "es-mapping"
      (disentangled.expand "es-mapping" [⟨"Order"⟩]) scope kind (.inline []) =
        .ok (.object kind []) := by
    intro scope kind
    rw [FieldType.property, FieldType.properties_nil]
    rfl
  have hfields : ∃ d, disentangled.get? ⟨"Order"⟩ = some d ∧
      FieldType.properties "es-mapping" (disentangled.expand "es-mapping" [⟨"Order"⟩]) d.name []
        d.fields = .ok [("item", .object "object" [])] :=
    ⟨_, rfl, (FieldType.properties_cons_tagged rfl).2
      ⟨by decide, List.not_mem_nil, _, hitem _ _, _, FieldType.properties_nil, rfl⟩⟩
  exact ⟨halike, hcompile, hcompile.symm.trans
    (expand_eq_ok_iff.2 ⟨List.not_mem_nil, hfields⟩)⟩

end TypeSet

end IndexMapping
