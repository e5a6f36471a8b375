import IndexMapping.Proofs.Descriptor.Insertions
import IndexMapping.Proofs.Schema.Recursion

/-! Compiling a type with more types at hand. The expansion asks a set for the types that it meets
and for nothing else. So it gives the same properties or the same error in a set that knows more
types, unless it stopped at one of these because it was unknown. -/

namespace IndexMapping

variable {α β : Type} {E : Error → Prop}

/-- The outcomes are the same, unless the second one is an error of some kind. -/
def SameUnless (E : Error → Prop) (r' r : Except Error α) : Prop :=
  r' = r ∨ ∃ err, E err ∧ r = .error err

namespace SameUnless

theorem refl (r : Except Error α) : SameUnless E r r := .inl rfl

theorem map {r' r : Except Error α} (f : α → β) (h : SameUnless E r' r) :
    SameUnless E (r'.map f) (r.map f) := by
  rcases h with rfl | ⟨err, herr, rfl⟩
  · exact refl _
  · exact .inr ⟨err, herr, rfl⟩

theorem bind {r' r : Except Error α} {f' f : α → Except Error β} (h : SameUnless E r' r)
    (hf : ∀ a, SameUnless E (f' a) (f a)) : SameUnless E (r' >>= f') (r >>= f) := by
  rcases h with rfl | ⟨err, herr, rfl⟩
  · cases r' with
    | error err => exact refl _
    | ok a => exact hf a
  · exact .inr ⟨err, herr, rfl⟩

end SameUnless

namespace FieldType

variable {tagKey : String} {expand' expand : TypeId → Except Error Properties} {owner : String}
  {taken : List String} {fs : List Field}

theorem sameUnless_property {scope kind : String} {τ : FieldType}
    (hexp : ∀ id, SameUnless E (expand' id) (expand id))
    (hin : ∀ gs, τ = .inline gs → SameUnless E (properties tagKey expand' scope [] gs)
      (properties tagKey expand scope [] gs)) :
    SameUnless E (property tagKey expand' scope kind τ) (property tagKey expand scope kind τ) := by
  cases τ with
  | scalar source =>
    rw [property, property]
    exact .refl _
  | reference id =>
    rw [property, property]
    exact (hexp id).map _
  | inline gs =>
    rw [property, property]
    exact (hin gs rfl).map _

/-- Fields pass on what their references expand to, errors included. -/
theorem sameUnless_properties (hexp : ∀ id, SameUnless E (expand' id) (expand id)) :
    SameUnless E (properties tagKey expand' owner taken fs)
      (properties tagKey expand owner taken fs) := by
  induction fs using Fields.induction generalizing owner taken with
  | step fs ih =>
    have hprop : ∀ f ∈ fs, ∀ {scope kind}, SameUnless E
        (property tagKey expand' scope kind f.type) (property tagKey expand scope kind f.type) :=
      fun f hf => sameUnless_property hexp fun gs hi => ih f hf gs hi
    clear ih
    induction fs generalizing taken with
    | nil =>
      rw [properties, properties]
      exact .refl _
    | cons f fs ih =>
      obtain ⟨hf, hfs⟩ := List.forall_mem_cons.1 hprop
      obtain ⟨name, type, tags⟩ := f
      rw [properties, properties]
      cases FieldOf.tag? ⟨name, type, tags⟩ tagKey with
      | none => exact ih hfs
      | some raw =>
        refine SameUnless.bind (.refl _) fun tag => hf.bind fun p => ?_
        by_cases htaken : tag.name ∈ taken
        · simp only [htaken, if_true]
          exact .refl _
        · simp only [htaken, if_false]
          exact (ih hfs).bind fun ps => .refl _

end FieldType

namespace TypeSet

variable {s s' : TypeSet} {tagKey : String} {chain : List TypeId} {id : TypeId}
  {d : TypeDescriptor} {new : TypeId → Prop}

/-- The second set knows what the first one knows, and of all other types only new ones. -/
def Extends (new : TypeId → Prop) (s s' : TypeSet) : Prop :=
  ∀ id, s'.get? id = s.get? id ∨ (s.get? id = none ∧ new id)

/-- The expansion in a set that knows more types. -/
theorem sameUnless_expand (h : Extends new s s') :
    SameUnless (fun err => ∃ id, new id ∧ err = .unknownType id)
      (s'.expand tagKey chain id) (s.expand tagKey chain id) := by
  induction chain, id using chain_induction (s := s) with
  | step chain id ih =>
    by_cases hid : id ∈ chain
    · rw [expand_of_mem hid, expand_of_mem hid]
      exact .refl _
    · rcases h id with hsame | ⟨hnone, hnew⟩
      · cases hd : s.get? id with
        | none =>
          rw [expand_of_unknown hid hd, expand_of_unknown hid (hsame.trans hd)]
          exact .refl _
        | some d =>
          rw [expand_of_known hid hd, expand_of_known hid (hsame.trans hd)]
          exact FieldType.sameUnless_properties fun ref => ih hid d hd ref
      · rw [expand_of_unknown hid hnone]
        exact .inr ⟨_, ⟨id, hnew, rfl⟩, rfl⟩

theorem compile_of_extends (h : Extends new s s')
    (hknown : ∀ a, new a → s.compile tagKey id ≠ .error (.unknownType a)) :
    s'.compile tagKey id = s.compile tagKey id := by
  have hexpand : SameUnless _ (s'.compile tagKey id) (s.compile tagKey id) := sameUnless_expand h
  rcases hexpand with hsame | ⟨_, ⟨a, ha, rfl⟩, herr⟩
  · exact hsame
  · exact absurd herr (hknown a ha)

/-- Sets in which look-up agrees compile all types alike. -/
theorem compile_congr (h : ∀ id, s'.get? id = s.get? id) (tagKey : String) (id : TypeId) :
    s'.compile tagKey id = s.compile tagKey id := by
  have hextends : Extends (fun _ => False) s s' := fun id => .inl (h id)
  exact compile_of_extends hextends fun _ ha => ha.elim

/-! ### Insertions -/

theorem extends_push (d : TypeDescriptor) :
    Extends (· = d.id) s ⟨s.types ++ [d.qualified]⟩ := by
  intro id
  simp only [get?, List.find?_append]
  cases hd : s.types.find? (·.id = id) with
  | some d' => exact .inl rfl
  | none =>
    by_cases hid : d.id = id
    · exact .inr ⟨rfl, hid.symm⟩
    · exact .inl (by simp [id_qualified, hid])

theorem extends_insert {added : TypeId} (h : s.insert d = .ok (added, s')) :
    Extends (· = d.id) s s' := by
  rw [insert] at h
  split at h
  · cases h
  · cases h
    exact extends_push d

theorem extends_tryInsert (d : TypeDescriptor) (s : TypeSet) :
    Extends (· = d.id) s ((tryInsert d).run s).2 := by
  by_cases hmem : d.id ∈ s.types.map (·.id)
  · rw [tryInsert_of_mem hmem]
    exact fun _ => .inl rfl
  · rw [tryInsert_of_notMem hmem]
    exact extends_push d

theorem extends_insertAll (ds : List TypeDescriptor) (s : TypeSet) :
    Extends (fun a => ∃ d ∈ ds, a = d.id) s ((insertAll ds).run s).2 := by
  induction ds using List.reverseRecOn with
  | nil => exact fun _ => .inl rfl
  | append_singleton ds d ih =>
    unfold insertAll at ih ⊢
    rw [run_mapM_concat]
    intro id
    have hlast := extends_tryInsert d ((ds.mapM tryInsert).run s).2 id
    rcases ih id with hsame | ⟨hnone, e, he, hid⟩
    · rw [← hsame]
      refine hlast.imp_right (And.imp_right fun hid => ?_)
      exact ⟨d, by simp, hid⟩
    · exact .inr ⟨hnone, e, List.mem_append_left _ he, hid⟩

/-- After an insertion a type compiles as it did before, to the same properties or with the same
error, unless it failed because the inserted type was unknown. So any further types leave a type
that compiled as it was, and hide no other error. -/
theorem compile_insert (s : TypeSet) (tagKey : String) (id : TypeId) :
    (∀ (d : TypeDescriptor) (added : TypeId) (s' : TypeSet), s.insert d = .ok (added, s') →
      s.compile tagKey id ≠ .error (.unknownType d.id) →
        s'.compile tagKey id = s.compile tagKey id) ∧
    ∀ ds : List TypeDescriptor, (∀ d ∈ ds, s.compile tagKey id ≠ .error (.unknownType d.id)) →
      ((insertAll ds).run s).2.compile tagKey id = s.compile tagKey id := by
  constructor
  · rintro d added s' h hknown
    apply compile_of_extends (extends_insert h)
    rintro _ rfl
    exact hknown
  · intro ds hknown
    apply compile_of_extends (extends_insertAll ds s)
    rintro _ ⟨d, hd, rfl⟩
    exact hknown d hd

/-- A type whose first tag has no kind, and which refers to another type after it. -/
def untidy : TypeDescriptor :=
  ⟨"Order", none, true,
    [⟨"Id", .scalar "string", ⟨[("es-mapping", "id")], by simp⟩⟩,
      ⟨"Item", .reference ⟨"Item"⟩, ⟨[("es-mapping", "item,object")], by simp⟩⟩]⟩

theorem compile_insert_untidy :
    let item : TypeDescriptor := ⟨"Item", none, false, []⟩
    TypeSet.insert ⟨[untidy]⟩ item = .ok (⟨"Item"⟩, ⟨[untidy, item]⟩) ∧
      TypeSet.compile ⟨[untidy]⟩ "es-mapping" ⟨"Order"⟩ =
        .error (.malformedTag "Order" "Id" "id") ∧
      TypeSet.compile ⟨[untidy, item]⟩ "es-mapping" ⟨"Order"⟩ =
        TypeSet.compile ⟨[untidy]⟩ "es-mapping" ⟨"Order"⟩ := by
  intro item
  have hinsert : TypeSet.insert ⟨[untidy]⟩ item = .ok (⟨"Item"⟩, ⟨[untidy, item]⟩) := rfl
  have hfails : TypeSet.compile ⟨[untidy]⟩ "es-mapping" ⟨"Order"⟩ =
      .error (.malformedTag "Order" "Id" "id") := by
    rw [compile, expand_of_known (d := untidy) List.not_mem_nil rfl]
    rfl
  refine ⟨hinsert, hfails, (compile_insert _ _ _).1 item _ _ hinsert ?_⟩
  rw [hfails]
  simp

end TypeSet

end IndexMapping
