import IndexMapping.Proofs.Schema.Extension
import IndexMapping.Proofs.Schema.Rendering

/-! Documents of a part of the requested types. If a set makes a document of some requests, any
set in which look-up agrees makes a document of any of them. It has entries of the first document
alone, and it is laid out whenever that one is. -/

namespace IndexMapping

theorem nodup_eraseDups {α : Type} [BEq α] [LawfulBEq α] (l : List α) : l.eraseDups.Nodup := by
  induction l using List.reverseRecOn with
  | nil => exact List.nodup_nil
  | append_singleton l a ih =>
    rw [List.eraseDups_append]
    by_cases h : a ∈ l
    · simpa [h, List.removeAll] using ih
    · have hnew : a ∉ l.eraseDups := fun ha => h (List.mem_eraseDups.1 ha)
      simpa [h, List.removeAll, List.eraseDups_cons, List.nodup_append] using
        ⟨ih, fun b hb heq => hnew (heq ▸ List.mem_eraseDups.2 hb)⟩

namespace TypeSet

variable {s s' : TypeSet} {tagKey : String} {id : TypeId} {ids chosen : List TypeId}
  {d : Document} {e e' : String × Properties}

/-- The document of some types, requested in turn on a fresh worklist. -/
def document (s : TypeSet) (tagKey : String) (ids : List TypeId) : Except Error Document :=
  (s.build tagKey (ids.foldl Worklist.request .empty)).1

theorem exists_document_iff :
    (∃ d, s.document tagKey ids = .ok d) ↔ s.Drainable tagKey ids.eraseDups := by
  rw [document, requests_eq, exists_build_iff, Worklist.pending, List.reverse_reverse]

theorem document_ok (h : s.document tagKey ids = .ok d) :
    List.Forall₂ (s.IsEntry tagKey) ids.eraseDups.reverse d.mappings ∧
      (d.mappings.map (·.1)).Nodup := by
  rw [document, requests_eq] at h
  obtain ⟨hall, hnodup, -⟩ := build_ok h
  exact ⟨hall, hnodup⟩

theorem run_eq_render (c : CompilerSettings) (ids : List TypeId) :
    (s.run c (ids.foldl Worklist.request .empty)).1 =
      s.document c.tagKey ids >>= Document.render c.format := rfl

/-! ### Sets in which look-up agrees -/

theorem mappingName?_congr (h : ∀ id, s'.get? id = s.get? id) (id : TypeId) :
    s'.mappingName? id = s.mappingName? id := by
  rw [mappingName?, mappingName?, h]

theorem isEntry_congr (h : ∀ id, s'.get? id = s.get? id) :
    s'.IsEntry tagKey id e ↔ s.IsEntry tagKey id e := by
  rw [IsEntry, IsEntry, mappingName?_congr h, compile_congr h]

theorem IsEntry.unique (h : s.IsEntry tagKey id e) (h' : s.IsEntry tagKey id e') : e = e' := by
  obtain ⟨name, ps⟩ := e
  obtain ⟨name', ps'⟩ := e'
  have hname : name = name' := Option.some.inj (h.1.symm.trans h'.1)
  have hps : ps = ps' := Except.ok.inj (h.2.symm.trans h'.2)
  rw [hname, hps]

/-- The entries of a document are those of its types. -/
theorem mem_mappings_iff (h : s.document tagKey ids = .ok d) :
    e ∈ d.mappings ↔ ∃ id ∈ ids, s.IsEntry tagKey id e := by
  obtain ⟨hall, -⟩ := document_ok h
  constructor
  · intro he
    obtain ⟨i, hi, rfl⟩ := List.getElem_of_mem he
    have hid := hall.get (hall.length_eq ▸ hi) hi
    refine ⟨_, ?_, hid⟩
    exact List.mem_eraseDups.1 (List.mem_reverse.1 (List.get_mem _ _))
  · rintro ⟨id, hid, hentry⟩
    obtain ⟨i, hi, rfl⟩ :=
      List.getElem_of_mem (List.mem_reverse.2 (List.mem_eraseDups.2 hid))
    have he := hall.get hi (hall.length_eq ▸ hi)
    rw [hentry.unique he]
    exact List.get_mem _ _

theorem Drainable.of_subset (h : s.Drainable tagKey ids) (hget : ∀ id, s'.get? id = s.get? id)
    (hsub : chosen ⊆ ids) (hnodup : chosen.Nodup) : s'.Drainable tagKey chosen where
  known id hid := by
    rw [hget]
    exact h.known id (hsub hid)
  compiles id hid := by
    rw [compile_congr hget]
    exact h.compiles id (hsub hid)
  distinct := by
    have hinj := List.inj_on_of_nodup_map h.distinct
    refine hnodup.map_on fun a ha b hb hab => hinj (hsub ha) (hsub hb) ?_
    rwa [mappingName?_congr hget, mappingName?_congr hget] at hab

theorem exists_document_of_subset (hd : s.document tagKey ids = .ok d)
    (hget : ∀ id, s'.get? id = s.get? id) (hsub : chosen ⊆ ids) :
    ∃ d', s'.document tagKey chosen = .ok d' ∧ d'.mappings ⊆ d.mappings := by
  have hdrain : s.Drainable tagKey ids.eraseDups := exists_document_iff.1 ⟨d, hd⟩
  have hchosen : chosen.eraseDups ⊆ ids.eraseDups := fun id hid =>
    List.mem_eraseDups.2 (hsub (List.mem_eraseDups.1 hid))
  obtain ⟨d', hd'⟩ := exists_document_iff.2 (hdrain.of_subset hget hchosen (nodup_eraseDups chosen))
  refine ⟨d', hd', fun e he => ?_⟩
  obtain ⟨id, hid, hentry⟩ := (mem_mappings_iff hd').1 he
  exact (mem_mappings_iff hd).2 ⟨id, hsub hid, (isEntry_congr hget).1 hentry⟩

end TypeSet

/-! ### Texts -/

namespace Document

variable {d d' : Document} {format : OutputFormat} {text : String}

/-- An entry is found under its name. -/
theorem lookup_of_mem {e : String × Properties} (hnodup : (d.mappings.map (·.1)).Nodup)
    (he : e ∈ d.mappings) : d.mappings.lookup e.1 = some e.2 := by
  obtain ⟨earlier, later, hsplit⟩ := List.append_of_mem he
  refine List.lookup_eq_some_iff.2 ⟨earlier, later, hsplit, fun e' he' => ?_⟩
  rw [hsplit, List.map_append, List.nodup_append] at hnodup
  have hne := hnodup.2.2 e'.1 (List.mem_map_of_mem he') e.1 (by simp)
  simpa using Ne.symm hne

theorem depth_encode_le (h : d'.mappings ⊆ d.mappings) : d'.encode.depth ≤ d.encode.depth := by
  have hmembers : Json.depthMembers (d'.mappings.map fun e => (e.1, encodeMapping e.2)) ≤
      Json.depthMembers (d.mappings.map fun e => (e.1, encodeMapping e.2)) :=
    Json.depthMembers_le_of_subset (List.map_subset _ h)
  simp only [encode, Json.depth, Json.depthMembers]
  omega

/-- A document is laid out if one with more entries is. -/
theorem exists_render_of_subset (hd : d.encode.Plain) (hd' : d'.encode.Plain)
    (h : d'.mappings ⊆ d.mappings) (hr : d.render format = .ok text) :
    ∃ text', d'.render format = .ok text' := by
  cases format with
  | compact => exact ⟨_, rfl⟩
  | pretty =>
    have hfits : d.encode.depth ≤ Json.depthLimit := by
      by_contra hdeep
      obtain ⟨err, herr, -⟩ := (render_pretty hd).2 (Nat.lt_of_not_le hdeep)
      rw [herr] at hr
      cases hr
    exact ⟨_, (render_pretty hd').1 ((depth_encode_le h).trans hfits)⟩

end Document

end IndexMapping
