import IndexMapping.Proofs.Fields
import IndexMapping.Proofs.Outcome
import IndexMapping.Schema.Expand

/-! The properties of a field list, for any way to expand references. They succeed exactly when
the list and all lists within it are well tagged and each reference expands; then there is one
property for each tagged field, in order, and the names at one level are distinct. -/

namespace IndexMapping.FieldType

open MappingTag (resolvedName writtenKind)

variable {tagKey : String} {expand : TypeId → Except Error Properties} {owner : String}
  {taken : List String} {f : Field} {fs : List Field} {τ : FieldType} {raw : String}
  {qs : Properties}

theorem properties_nil : properties tagKey expand owner taken [] = .ok [] := by
  rw [properties]

theorem properties_cons_untagged (hf : f.tag? tagKey = none) :
    properties tagKey expand owner taken (f :: fs) = properties tagKey expand owner taken fs := by
  obtain ⟨name, type, tags⟩ := f
  rw [properties, hf]

/-- What a tagged field adds: a property under a name that is not taken. -/
theorem properties_cons_tagged (hf : f.tag? tagKey = some raw) :
    properties tagKey expand owner taken (f :: fs) = .ok qs ↔
      ',' ∈ raw.toList ∧ resolvedName raw f.name ∉ taken ∧
        ∃ p, property tagKey expand (owner ++ "." ++ f.name) (writtenKind raw) f.type = .ok p ∧
          ∃ ps, properties tagKey expand owner (resolvedName raw f.name :: taken) fs = .ok ps ∧
            (resolvedName raw f.name, p) :: ps = qs := by
  obtain ⟨name, type, tags⟩ := f
  rw [properties, hf]
  simp only [MappingTag.parse_eq]
  by_cases hc : ',' ∈ raw.toList
  · by_cases ht : resolvedName raw name ∈ taken
    · simp [hc, ht, bind_eq_ok]
    · simp [hc, ht, bind_eq_ok]
  · simp [hc]

/-! ### Success -/

/-- A list has properties exactly when its tags are well formed, the names are new and each
tagged field has a property. -/
theorem exists_properties_iff :
    (∃ ps, properties tagKey expand owner taken fs = .ok ps) ↔
      (∀ f ∈ fs, ∀ raw, f.tag? tagKey = some raw → ',' ∈ raw.toList ∧
        ∃ p, property tagKey expand (owner ++ "." ++ f.name) (writtenKind raw) f.type = .ok p) ∧
      (fs.filterMap (·.mappingName? tagKey)).Nodup ∧
      ∀ n ∈ fs.filterMap (·.mappingName? tagKey), n ∉ taken := by
  induction fs generalizing taken with
  | nil => simp [properties_nil]
  | cons f fs ih =>
    cases hf : f.tag? tagKey with
    | none => simp [properties_cons_untagged hf, ih, FieldOf.mappingName?, hf]
    | some raw =>
      simp only [properties_cons_tagged hf, List.filterMap_cons, FieldOf.mappingName?, hf,
        List.forall_mem_cons, Option.map_some, List.nodup_cons]
      constructor
      · rintro ⟨_, hc, hn, p, hp, ps, hps, -⟩
        obtain ⟨hfs, hnodup, hnew⟩ := ih.1 ⟨ps, hps⟩
        refine ⟨⟨fun r hr => ?_, hfs⟩, ⟨fun hin => ?_, hnodup⟩, hn, fun n hin => ?_⟩
        · cases hr
          exact ⟨hc, p, hp⟩
        · exact hnew _ hin List.mem_cons_self
        · exact fun h => hnew n hin (List.mem_cons_of_mem _ h)
      · rintro ⟨⟨hraw, hfs⟩, ⟨hfresh, hnodup⟩, hn, hnew⟩
        obtain ⟨hc, p, hp⟩ := hraw raw rfl
        obtain ⟨ps, hps⟩ := ih.2 ⟨hfs, hnodup, fun n hin h => by
          rcases List.mem_cons.1 h with rfl | h
          · exact hfresh hin
          · exact hnew n hin h⟩
        exact ⟨_, hc, hn, p, hp, ps, hps, rfl⟩

theorem exists_property_iff {scope kind : String} :
    (∃ p, property tagKey expand scope kind τ = .ok p) ↔
      (∀ id, τ = .reference id → ∃ ps, expand id = .ok ps) ∧
      ∀ gs, τ = .inline gs → ∃ ps, properties tagKey expand scope [] gs = .ok ps := by
  cases τ <;> simp [property, exists_map_eq_ok]

/-- A list has properties exactly when all lists within it are well tagged and all references
expand. The owner's name matters for the messages only. -/
theorem exists_properties_iff_within :
    (∃ ps, properties tagKey expand owner [] fs = .ok ps) ↔
      (∀ gs, Fields.Within tagKey fs gs → Fields.WellTagged tagKey gs) ∧
      ∀ id, Fields.Mentions tagKey fs id → ∃ ps, expand id = .ok ps := by
  induction fs using Fields.induction generalizing owner with
  | step fs ih =>
    rw [exists_properties_iff, Fields.forall_within, Fields.forall_mentions]
    simp only [exists_property_iff, Option.isSome_iff_exists]
    constructor
    · rintro ⟨hfields, hnodup, -⟩
      refine ⟨⟨⟨fun f hf raw hr => (hfields f hf raw hr).1, hnodup⟩, ?_⟩, ?_⟩
      · rintro f hf ⟨raw, hr⟩ gs hi
        exact ((ih f hf gs hi).1 ((hfields f hf raw hr).2.2 gs hi)).1
      · rintro f hf ⟨raw, hr⟩
        obtain ⟨-, href, hinl⟩ := hfields f hf raw hr
        exact ⟨href, fun gs hi => ((ih f hf gs hi).1 (hinl gs hi)).2⟩
    · rintro ⟨⟨⟨hcomma, hnodup⟩, hwithin⟩, hmentions⟩
      refine ⟨fun f hf raw hr => ⟨hcomma f hf raw hr, (hmentions f hf ⟨raw, hr⟩).1, ?_⟩, hnodup,
        by simp⟩
      intro gs hi
      exact (ih f hf gs hi).2 ⟨hwithin f hf ⟨raw, hr⟩ gs hi, (hmentions f hf ⟨raw, hr⟩).2 gs hi⟩

/-! ### The properties -/

mutual

/-- `p` is the property of a field of type `τ` and of a kind; `node` tells what a reference
expands to. -/
inductive Shows (tagKey : String) (node : TypeId → Properties → Prop) :
    String → FieldType → Property → Prop
  | scalar (kind source : String) : Shows tagKey node kind (.scalar source) (.scalar kind)
  | reference {kind : String} {id : TypeId} {ps : Properties} (h : node id ps) :
      Shows tagKey node kind (.reference id) (.object kind ps)
  | inline {kind : String} {fs : List Field} {ps : Properties} (h : Lists tagKey node fs ps) :
      Shows tagKey node kind (.inline fs) (.object kind ps)

/-- `ps` has one entry for each tagged field of `fs`, in order, under distinct names. -/
inductive Lists (tagKey : String) (node : TypeId → Properties → Prop) :
    List Field → Properties → Prop
  | nil : Lists tagKey node [] []
  | untagged {f : Field} {fs : List Field} {ps : Properties} (hf : f.tag? tagKey = none)
      (h : Lists tagKey node fs ps) : Lists tagKey node (f :: fs) ps
  | tagged {f : Field} {fs : List Field} {raw : String} {p : Property} {ps : Properties}
      (hf : f.tag? tagKey = some raw) (hp : Shows tagKey node (writtenKind raw) f.type p)
      (h : Lists tagKey node fs ps) (fresh : resolvedName raw f.name ∉ ps.map (·.1)) :
      Lists tagKey node (f :: fs) ((resolvedName raw f.name, p) :: ps)

end

theorem names_new {ps : Properties} (h : properties tagKey expand owner taken fs = .ok ps) :
    ∀ n ∈ ps.map (·.1), n ∉ taken := by
  induction fs generalizing taken ps with
  | nil =>
    rw [properties_nil] at h
    cases h
    simp
  | cons f fs ih =>
    cases hf : f.tag? tagKey with
    | none =>
      rw [properties_cons_untagged hf] at h
      exact ih h
    | some raw =>
      obtain ⟨-, hn, p, -, qs, hqs, rfl⟩ := (properties_cons_tagged hf).1 h
      rw [List.map_cons, List.forall_mem_cons]
      exact ⟨hn, fun n hin ht => ih hqs n hin (List.mem_cons_of_mem _ ht)⟩

/-- One level of properties, given what each of its fields shows. -/
theorem lists_of_properties {node : TypeId → Properties → Prop} {ps : Properties}
    (shows : ∀ f ∈ fs, ∀ {scope kind p}, property tagKey expand scope kind f.type = .ok p →
      Shows tagKey node kind f.type p)
    (h : properties tagKey expand owner taken fs = .ok ps) : Lists tagKey node fs ps := by
  induction fs generalizing taken ps with
  | nil =>
    rw [properties_nil] at h
    cases h
    exact .nil
  | cons f fs ih =>
    have hrest : ∀ g ∈ fs, ∀ {scope kind p}, property tagKey expand scope kind g.type = .ok p →
        Shows tagKey node kind g.type p := fun g hg => shows g (List.mem_cons_of_mem _ hg)
    cases hf : f.tag? tagKey with
    | none =>
      rw [properties_cons_untagged hf] at h
      exact .untagged hf (ih hrest h)
    | some raw =>
      obtain ⟨-, -, p, hp, qs, hqs, rfl⟩ := (properties_cons_tagged hf).1 h
      refine .tagged hf (shows f List.mem_cons_self hp) (ih hrest hqs) fun hin => ?_
      exact names_new hqs _ hin List.mem_cons_self

/-- The properties of a list are those of its tagged fields, at every inline depth. -/
theorem properties_lists {ps : Properties}
    (h : properties tagKey expand owner taken fs = .ok ps) :
    Lists tagKey (fun id ps => expand id = .ok ps) fs ps := by
  induction fs using Fields.induction generalizing owner taken ps with
  | step fs ih =>
    refine lists_of_properties (fun f hf scope kind p hp => ?_) h
    cases hτ : f.type with
    | scalar source =>
      rw [hτ, property] at hp
      cases hp
      exact .scalar kind source
    | reference id =>
      rw [hτ, property, map_eq_ok] at hp
      obtain ⟨ps, hps, rfl⟩ := hp
      exact .reference hps
    | inline gs =>
      rw [hτ, property, map_eq_ok] at hp
      obtain ⟨ps, hps, rfl⟩ := hp
      exact .inline (ih f hf gs hτ hps)

/-! ### Another way to expand references -/

/-- A way to expand references that agrees with `expand` wherever that succeeds gives the same
property. -/
theorem property_mono {expand' : TypeId → Except Error Properties}
    (hexp : ∀ id ps, expand id = .ok ps → expand' id = .ok ps)
    (hin : ∀ gs, τ = .inline gs → ∀ {owner ps}, properties tagKey expand owner [] gs = .ok ps →
      properties tagKey expand' owner [] gs = .ok ps)
    {scope kind : String} {p : Property} (h : property tagKey expand scope kind τ = .ok p) :
    property tagKey expand' scope kind τ = .ok p := by
  cases τ with
  | scalar source => simpa [property] using h
  | reference id =>
    rw [property, map_eq_ok] at h ⊢
    exact h.imp fun ps hp => ⟨hexp id ps hp.1, hp.2⟩
  | inline gs =>
    rw [property, map_eq_ok] at h ⊢
    exact h.imp fun ps hp => ⟨hin gs rfl hp.1, hp.2⟩

theorem properties_mono {expand' : TypeId → Except Error Properties}
    (hexp : ∀ id ps, expand id = .ok ps → expand' id = .ok ps)
    (h : properties tagKey expand owner taken fs = .ok qs) :
    properties tagKey expand' owner taken fs = .ok qs := by
  induction fs using Fields.induction generalizing owner taken qs with
  | step fs ih =>
    have hprop : ∀ f ∈ fs, ∀ {scope kind p}, property tagKey expand scope kind f.type = .ok p →
        property tagKey expand' scope kind f.type = .ok p :=
      fun f hf => property_mono hexp fun gs hi => ih f hf gs hi
    clear ih
    induction fs generalizing taken qs with
    | nil => rwa [properties_nil] at h ⊢
    | cons f fs ih =>
      cases hf : f.tag? tagKey with
      | none =>
        rw [properties_cons_untagged hf] at h ⊢
        exact ih h fun g hg => hprop g (List.mem_cons_of_mem f hg)
      | some raw =>
        rw [properties_cons_tagged hf] at h ⊢
        obtain ⟨hc, hn, p, hp, ps, hps, hq⟩ := h
        refine ⟨hc, hn, p, hprop f List.mem_cons_self hp, ps, ih hps fun g hg => ?_, hq⟩
        exact hprop g (List.mem_cons_of_mem f hg)

end IndexMapping.FieldType
