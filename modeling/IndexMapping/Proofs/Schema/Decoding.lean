import IndexMapping.Proofs.Json.Decoding
import IndexMapping.Proofs.Schema.Rendering

/-! Documents are decoded from their texts. A built document has distinct names at every level, so
that what a run writes in either layout is decoded as the document itself, whatever characters its
names and kinds hold, unless it nests too deeply for the reader. -/

namespace IndexMapping

open Json (Plain Decoder Record)

variable {d : Document} {ps : Properties}

/-! ### Properties -/

namespace Property

theorem encodeMembers_eq_map (ps : Properties) :
    encodeMembers ps = ps.map fun e => (e.1, e.2.encode) := by
  induction ps with
  | nil => rfl
  | cons e ps ih =>
    obtain ⟨name, p⟩ := e
    rw [encodeMembers, ih, List.map_cons]

theorem mem_encodeMembers {e : String × Property} (h : e ∈ ps) :
    (e.1, e.2.encode) ∈ encodeMembers ps := by
  rw [encodeMembers_eq_map]
  exact List.mem_map_of_mem h

/-- Properties under distinct names are decoded if each of them is. -/
theorem decodes_members {decoder : Decoder Property}
    (hnames : Plain (.object (encodeMembers ps)))
    (h : ∀ e ∈ ps, decoder.Decodes e.2.encode e.2) :
    decoder.table.Decodes (.object (encodeMembers ps)) ps := by
  cases hnames with
  | object names _ =>
    rw [names_encodeMembers] at names
    rw [encodeMembers_eq_map]
    exact Decoder.decodes_table names h

theorem gathers_scalar (property : Decoder Property) (kind : String) :
    (record property).Gathers {} [("type", .string kind)] { kind := some kind } :=
  .update rfl rfl (Decoder.decodes_string kind) (.nil _)

theorem gathers_object {property : Decoder Property} (kind : String)
    (h : property.table.Decodes (.object (encodeMembers ps)) ps) :
    (record property).Gathers {}
      [("type", .string kind), ("properties", .object (encodeMembers ps))]
      { kind := some kind, properties := some (some ps) } :=
  .update rfl rfl (Decoder.decodes_string kind) (.update rfl rfl h.nullable (.nil _))

/-- A property is decoded if its names are distinct at every level. -/
theorem decodes {p : Property} (hp : Plain p.encode) {nesting : Nat}
    (hfits : p.encode.depth ≤ nesting) : (decoder nesting).Decodes p.encode p := by
  induction nesting generalizing p with
  | zero => cases p <;> simp [encode, Json.depth] at hfits
  | succ nesting ih =>
    cases p with
    | scalar kind =>
      rw [encode]
      exact Record.decodes_of_gathers (gathers_scalar _ kind) rfl
    | object kind ps =>
      rw [encode] at hp hfits ⊢
      have hplain : Plain (.object (encodeMembers ps)) :=
        hp.of_mem (List.mem_cons_of_mem _ List.mem_cons_self)
      have hdepth : Json.depthMembers (encodeMembers ps) ≤ nesting := by
        simp only [Json.depth, Json.depthMembers] at hfits
        omega
      refine Record.decodes_of_gathers (gathers_object kind (decodes_members hplain ?_)) rfl
      intro e he
      exact ih (hplain.of_mem (mem_encodeMembers he))
        (Json.depthMembers_le_iff.1 hdepth _ (mem_encodeMembers he))

end Property

/-! ### Documents -/

namespace Document

theorem gathers_mapping {nesting : Nat}
    (h : (Property.decoder nesting).table.Decodes (.object (Property.encodeMembers ps)) ps) :
    (mappingRecord nesting).Gathers {} [("properties", .object (Property.encodeMembers ps))]
      { properties := some ps } :=
  .update rfl rfl h (.nil _)

theorem decodes_mapping {nesting : Nat} (hplain : (encodeMapping ps).Plain)
    (hfits : (encodeMapping ps).depth ≤ nesting) :
    (mappingRecord nesting).decoder.Decodes (encodeMapping ps) ps := by
  have hmembers : Plain (.object (Property.encodeMembers ps)) := hplain.of_mem List.mem_cons_self
  have hdepth : Json.depthMembers (Property.encodeMembers ps) ≤ nesting := by
    simp only [encodeMapping, Json.depth, Json.depthMembers] at hfits
    omega
  refine Record.decodes_of_gathers (gathers_mapping (Property.decodes_members hmembers ?_)) rfl
  intro e he
  exact Property.decodes (hmembers.of_mem (Property.mem_encodeMembers he))
    (Json.depthMembers_le_iff.1 hdepth _ (Property.mem_encodeMembers he))

theorem gathers_document {nesting : Nat}
    (h : (mappingRecord nesting).decoder.table.Decodes
      (.object (d.mappings.map fun e => (e.1, encodeMapping e.2))) d.mappings) :
    (record nesting).Gathers {}
      [("mappings", .object (d.mappings.map fun e => (e.1, encodeMapping e.2)))]
      { mappings := some d.mappings } :=
  .update rfl rfl h (.nil _)

theorem encode_eq (d : Document) :
    d.encode = .object [("mappings", .object (d.mappings.map fun e => (e.1, encodeMapping e.2)))] :=
  rfl

/-- A document is decoded if its names are distinct at every level. -/
theorem decodes {nesting : Nat} (hplain : d.encode.Plain) (hfits : d.encode.depth ≤ nesting) :
    (record nesting).decoder.Decodes d.encode d := by
  rw [encode_eq] at hplain hfits ⊢
  have hmappings : Plain (.object (d.mappings.map fun e => (e.1, encodeMapping e.2))) :=
    hplain.of_mem List.mem_cons_self
  have hdepth : Json.depthMembers (d.mappings.map fun e => (e.1, encodeMapping e.2)) ≤ nesting := by
    simp only [Json.depth, Json.depthMembers] at hfits
    omega
  have hnames : (d.mappings.map (·.1)).Nodup := by
    cases hmappings with
    | object names _ => simpa [Function.comp_def] using names
  refine Record.decodes_of_gathers (gathers_document (Decoder.decodes_table hnames ?_)) rfl
  intro e he
  have hmem := List.mem_map_of_mem (f := fun e => (e.1, encodeMapping e.2)) he
  exact decodes_mapping (hmappings.of_mem hmem) (Json.depthMembers_le_iff.1 hdepth _ hmem)

/-- Either text of a document is decoded as the document. -/
theorem parse_of_render {format : OutputFormat} {text : String} (hplain : d.encode.Plain)
    (hfits : d.encode.depth ≤ Json.depthLimit) (h : d.render format = .ok text) :
    parse text = .ok d := by
  cases format with
  | pretty =>
    have htab : Json.Blank "\t".toList := List.forall_mem_singleton.2 rfl
    rw [(render_pretty hplain).1 hfits] at h
    cases h
    exact (decodes hplain hfits).parse_eq (Json.written_indented htab 0 d.encode) hfits
  | compact =>
    cases h
    exact (decodes hplain hfits).parse_eq (Json.written_compact d.encode) hfits

end Document

namespace TypeSet

/-- The text that a run writes of a document that nests no more than 127 brackets is decoded as
that document. -/
theorem parse_run (s : TypeSet) (c : CompilerSettings) (w : Worklist)
    (hb : (s.build c.tagKey w).1 = .ok d) (hfits : d.encode.depth ≤ 127) :
    ∃ text, (s.run c w).1 = .ok text ∧ Document.parse text = .ok d := by
  have hplain := plain_of_build hb
  obtain ⟨text, htext⟩ : ∃ text, d.render c.format = .ok text := by
    cases c.format with
    | pretty => exact ⟨_, (Document.render_pretty hplain).1 hfits⟩
    | compact => exact ⟨_, rfl⟩
  exact ⟨text, (run_of_build_ok c.format hb).trans htext,
    Document.parse_of_render hplain hfits htext⟩

/-- Names and kinds with quotation marks, backslashes, control characters, a letter beyond ASCII,
and an empty name. -/
def oddTypes : TypeSet := ⟨[
  ⟨"A\"\\", none, true, [
    ⟨"", .scalar "string", ⟨[("es-mapping", ",\u0001\"")], by simp⟩⟩,
    ⟨"x", .reference ⟨"é"⟩, ⟨[("es-mapping", "\n\\é,ob\tject")], by simp⟩⟩]⟩,
  ⟨"é", none, false, []⟩]⟩

def oddDocument : Document :=
  ⟨[("a\"\\", [("", .scalar "\u0001\""), ("\n\\é", .object "ob\tject" [])])]⟩

theorem compile_odd : oddTypes.compile "es-mapping" ⟨"A\"\\"⟩ =
    .ok [("", .scalar "\u0001\""), ("\n\\é", .object "ob\tject" [])] := by
  have hnone : oddTypes.expand "es-mapping" [⟨"A\"\\"⟩] ⟨"é"⟩ = .ok [] :=
    expand_eq_ok_iff.2 ⟨by decide, _, rfl, FieldType.properties_nil⟩
  have hproperty : ∀ owner kind, FieldType.property "es-mapping"
      (oddTypes.expand "es-mapping" [⟨"A\"\\"⟩]) owner kind (.reference ⟨"é"⟩) =
        .ok (.object kind []) := by
    intro owner kind
    rw [FieldType.property, hnone]
    rfl
  refine expand_eq_ok_iff.2 ⟨List.not_mem_nil, _, rfl, (FieldType.properties_cons_tagged rfl).2
    ⟨by decide, List.not_mem_nil, _, rfl, _, ?_, rfl⟩⟩
  exact (FieldType.properties_cons_tagged rfl).2
    ⟨by decide, by decide, _, hproperty _ _, _, FieldType.properties_nil, rfl⟩

theorem build_odd :
    (oddTypes.build "es-mapping" ⟨[], [⟨"A\"\\"⟩]⟩).1 = .ok oddDocument := by
  have hentry : oddTypes.mapping "es-mapping" [] ⟨"A\"\\"⟩ =
      .ok (Identifier.snake "A\"\\", _) :=
    mapping_eq_ok_iff.2 ⟨⟨rfl, compile_odd⟩, List.not_mem_nil⟩
  simp only [build, drain, hentry]
  rfl

theorem parse_run_odd :
    (oddTypes.build "es-mapping" ⟨[], [⟨"A\"\\"⟩]⟩).1 = .ok oddDocument ∧
      oddDocument.encode.depth ≤ 127 ∧
      ∃ text, (oddTypes.run {} ⟨[], [⟨"A\"\\"⟩]⟩).1 = .ok text ∧
        Document.parse text = .ok oddDocument := by
  have hfits : oddDocument.encode.depth ≤ 127 := by decide
  exact ⟨build_odd, hfits, parse_run oddTypes {} _ build_odd hfits⟩

end TypeSet

end IndexMapping
