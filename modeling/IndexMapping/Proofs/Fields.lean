import IndexMapping.Descriptor.Basic
import IndexMapping.Proofs.MappingTag
import Mathlib.Logic.Relation

/-! The field lists within a field list, and the types it refers to. Only tagged fields lead on:
an untagged field is passed over with all that is in it. -/

namespace IndexMapping

namespace FieldOf

/-- The name of the mapping of a field, if the field is tagged. -/
def mappingName? (f : Field) (tagKey : String) : Option String :=
  (f.tag? tagKey).map fun raw => MappingTag.resolvedName raw f.name

end FieldOf

namespace Fields

variable {tagKey : String}

/-- `gs` is the list of a tagged inline field of `fs`. -/
def Inner (tagKey : String) (fs gs : List Field) : Prop :=
  ∃ f ∈ fs, (f.tag? tagKey).isSome ∧ f.type = .inline gs

/-- `gs` is `fs` or a list within it, at any inline depth. -/
def Within (tagKey : String) : List Field → List Field → Prop :=
  Relation.ReflTransGen (Inner tagKey)

/-- A tagged field refers to a type, at any inline depth. -/
def Mentions (tagKey : String) (fs : List Field) (id : TypeId) : Prop :=
  ∃ gs, Within tagKey fs gs ∧ ∃ f ∈ gs, (f.tag? tagKey).isSome ∧ f.type = .reference id

/-- All tags of a list have a comma, and the names they give are distinct. -/
structure WellTagged (tagKey : String) (fs : List Field) : Prop where
  comma : ∀ f ∈ fs, ∀ raw, f.tag? tagKey = some raw → ',' ∈ raw.toList
  distinct : (fs.filterMap (·.mappingName? tagKey)).Nodup

theorem sizeOf_inline_lt {f : Field} {fs gs : List Field} (hf : f ∈ fs) (hi : f.type = .inline gs) :
    sizeOf gs < sizeOf fs := by
  have hlt := List.sizeOf_lt_of_mem hf
  obtain ⟨name, type, tags⟩ := f
  subst hi
  simp only [FieldOf.mk.sizeOf_spec, FieldType.inline.sizeOf_spec] at hlt
  omega

/-- What holds of a list once it holds of its inline lists holds of all lists. -/
theorem induction {P : List Field → Prop}
    (step : ∀ fs, (∀ f ∈ fs, ∀ gs, f.type = .inline gs → P gs) → P fs) (fs : List Field) : P fs :=
  step fs fun f hf gs hi =>
    have := sizeOf_inline_lt hf hi
    induction step gs
termination_by sizeOf fs

theorem forall_within {P : List Field → Prop} {fs : List Field} :
    (∀ gs, Within tagKey fs gs → P gs) ↔
      P fs ∧ ∀ f ∈ fs, (f.tag? tagKey).isSome → ∀ gs, f.type = .inline gs →
        ∀ hs, Within tagKey gs hs → P hs := by
  constructor
  · intro h
    exact ⟨h fs .refl, fun f hf ht gs hi hs hw => h hs (.head ⟨f, hf, ht, hi⟩ hw)⟩
  · rintro ⟨hfs, hin⟩ gs hw
    obtain rfl | ⟨hs, ⟨f, hf, ht, hi⟩, hw⟩ := hw.cases_head
    · exact hfs
    · exact hin f hf ht hs hi gs hw

theorem forall_mentions {P : TypeId → Prop} {fs : List Field} :
    (∀ id, Mentions tagKey fs id → P id) ↔
      ∀ f ∈ fs, (f.tag? tagKey).isSome →
        (∀ id, f.type = .reference id → P id) ∧
        ∀ gs, f.type = .inline gs → ∀ id, Mentions tagKey gs id → P id := by
  constructor
  · intro h f hf ht
    exact ⟨fun id hr => h id ⟨fs, .refl, f, hf, ht, hr⟩, fun gs hi id ⟨hs, hw, hm⟩ =>
      h id ⟨hs, .head ⟨f, hf, ht, hi⟩ hw, hm⟩⟩
  · rintro h id ⟨gs, hw, f, hf, ht, hr⟩
    obtain rfl | ⟨hs, ⟨g, hg, htg, hi⟩, hw⟩ := hw.cases_head
    · exact (h f hf ht).1 id hr
    · exact (h g hg htg).2 hs hi id ⟨gs, hw, f, hf, ht, hr⟩

end Fields

end IndexMapping
