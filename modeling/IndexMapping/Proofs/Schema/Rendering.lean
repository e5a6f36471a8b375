import IndexMapping.Proofs.Json.Reading
import IndexMapping.Proofs.Schema.Drain

/-! The text of a document. A document that is built has distinct names at every level, so that
laying it out reads its compact text back as it was written, unless it nests too deeply for the
reader. The writer has no such limit. -/

namespace IndexMapping

open Json (Plain)

variable {s : TypeSet} {tagKey : String} {w : Worklist} {d : Document} {ps : Properties}

/-! ### Built documents are plain -/

namespace Property

theorem names_encodeMembers (ps : Properties) :
    (encodeMembers ps).map (·.1) = ps.map (·.1) := by
  induction ps with
  | nil => rfl
  | cons p ps ih =>
    obtain ⟨name, p⟩ := p
    rw [encodeMembers, List.map_cons, List.map_cons, ih]

theorem plain_nil : Plain (.object []) :=
  .object List.nodup_nil fun _ h => absurd h List.not_mem_nil

theorem plain_object {kind : String} (h : Plain (.object (encodeMembers ps))) :
    Plain (Property.object kind ps).encode := by
  rw [encode]
  exact (Plain.string kind).object_cons (by simp) (h.object_cons (by simp) plain_nil)

end Property

namespace FieldType

variable {node : TypeId → Properties → Prop}

mutual

theorem Shows.plain
    (hnode : ∀ id ps, node id ps → Plain (.object (Property.encodeMembers ps)))
    {kind : String} {τ : FieldType} {p : Property} : Shows tagKey node kind τ p → Plain p.encode
  | .scalar kind _ => by
    rw [Property.encode]
    exact (Plain.string kind).object_cons (by decide) Property.plain_nil
  | .reference h => Property.plain_object (hnode _ _ h)
  | .inline h => Property.plain_object (h.plain hnode)

/-- Names are distinct at every level of the properties of a list. -/
theorem Lists.plain
    (hnode : ∀ id ps, node id ps → Plain (.object (Property.encodeMembers ps)))
    {fs : List Field} {ps : Properties} :
    Lists tagKey node fs ps → Plain (.object (Property.encodeMembers ps))
  | .nil => Property.plain_nil
  | .untagged _ h => h.plain hnode
  | .tagged _ hp h fresh => by
    rw [← Property.names_encodeMembers] at fresh
    exact (hp.plain hnode).object_cons fresh (h.plain hnode)

end

end FieldType

namespace TypeSet

theorem plain_of_expand {chain : List TypeId} {id : TypeId}
    (h : s.expand tagKey chain id = .ok ps) : Plain (.object (Property.encodeMembers ps)) := by
  induction chain, id using chain_induction (s := s) generalizing ps with
  | step chain id ih =>
    obtain ⟨hid, d, hd, hps⟩ := expand_eq_ok_iff.1 h
    exact (FieldType.properties_lists hps).plain fun ref _ hq => ih hid d hd ref hq

theorem plain_of_build (h : (s.build tagKey w).1 = .ok d) : d.encode.Plain := by
  obtain ⟨hall, hnodup, -⟩ := build_ok h
  have hmapping : ∀ e ∈ d.mappings, (Document.encodeMapping e.2).Plain := by
    intro e he
    obtain ⟨i, hi, rfl⟩ := List.getElem_of_mem he
    have hentry := (hall.get (hall.length_eq ▸ hi) hi).2
    exact (plain_of_expand hentry).object_cons (by decide) Property.plain_nil
  have hmappings : Plain (.object (d.mappings.map fun e => (e.1, Document.encodeMapping e.2))) := by
    refine .object ?_ (List.forall_mem_map.2 hmapping)
    rw [List.map_map]
    exact hnodup
  exact hmappings.object_cons (by decide) Property.plain_nil

end TypeSet

/-! ### Laying out -/

/-- A plain document is laid out, unless it nests too deeply to be read. -/
theorem Document.render_pretty (hd : d.encode.Plain) :
    (d.encode.depth ≤ Json.depthLimit → d.render .pretty = .ok (d.encode.indented "\t")) ∧
      (Json.depthLimit < d.encode.depth →
        ∃ e, d.render .pretty = .error (.formatting e) ∧ e.cause = .tooDeep) := by
  obtain ⟨hok, hdeep⟩ := Json.parse_written (Json.written_compact d.encode) hd
  rw [render, Json.indent, Json.compact]
  refine ⟨fun hfits => ?_, fun hlt => ?_⟩
  · rw [hok hfits]
    rfl
  · obtain ⟨e, he, hcause⟩ := hdeep hlt
    rw [he]
    exact ⟨e, rfl, hcause⟩

namespace TypeSet

theorem run_of_build_ok (format : OutputFormat) (h : (s.build tagKey w).1 = .ok d) :
    (s.run ⟨tagKey, format⟩ w).1 = d.render format := by
  rw [run]
  simp only [h, ok_bind]

theorem run_of_build_error {err : Error} (format : OutputFormat)
    (h : (s.build tagKey w).1 = .error err) : (s.run ⟨tagKey, format⟩ w).1 = .error err := by
  rw [run]
  simp only [h, error_bind]

/-- A run that lays out its document succeeds exactly when a compact run does and no more than
127 brackets of the document are open at once. A deeper document is written by a compact run but
refused by the other one. -/
theorem run_pretty_iff (s : TypeSet) (tagKey : String) (w : Worklist) :
    ((∃ text, (s.run ⟨tagKey, .pretty⟩ w).1 = .ok text) ↔
      (∃ text, (s.run ⟨tagKey, .compact⟩ w).1 = .ok text) ∧
        ∀ d, (s.build tagKey w).1 = .ok d → d.encode.depth ≤ 127) ∧
    ∀ d, (s.build tagKey w).1 = .ok d → 127 < d.encode.depth →
      (s.run ⟨tagKey, .compact⟩ w).1 = .ok d.encode.compact ∧
        ∃ e, (s.run ⟨tagKey, .pretty⟩ w).1 = .error (.formatting e) ∧ e.cause = .tooDeep := by
  cases hb : (s.build tagKey w).1 with
  | error err =>
    rw [run_of_build_error .pretty hb, run_of_build_error .compact hb]
    simp
  | ok d =>
    obtain ⟨hfits, hdeep⟩ := Document.render_pretty (plain_of_build hb)
    rw [run_of_build_ok .pretty hb, run_of_build_ok .compact hb]
    refine ⟨⟨fun ⟨text, htext⟩ => ⟨⟨_, rfl⟩, ?_⟩, fun ⟨_, hdepth⟩ => ?_⟩, ?_⟩
    · rintro _ ⟨⟩
      refine Nat.not_lt.1 fun hlt => ?_
      obtain ⟨e, he, -⟩ := hdeep hlt
      rw [he] at htext
      cases htext
    · exact ⟨_, hfits (hdepth d rfl)⟩
    · rintro _ ⟨⟩ hlt
      exact ⟨rfl, hdeep hlt⟩

/-! ### A document that only a compact run writes -/

/-- The names of the types of a chain differ in their length. -/
def linkName (n : Nat) : String := String.ofList (List.replicate (n + 1) 'a')

/-- A type with one field, whose type is the one before it. -/
def link : Nat → TypeDescriptor
  | 0 => ⟨linkName 0, none, true, []⟩
  | n + 1 =>
    ⟨linkName (n + 1), none, true,
      [⟨"x", .reference ⟨linkName n⟩, ⟨[("es-mapping", "x,object")], by simp⟩⟩]⟩

/-- The types up to `n`, each of which refers to the one before it. -/
def links (n : Nat) : TypeSet := ⟨(List.range (n + 1)).map link⟩

theorem linkName_inj {m n : Nat} : linkName m = linkName n ↔ m = n := by
  rw [linkName, linkName, String.ofList_inj, List.replicate_left_inj, Nat.add_right_cancel_iff]

theorem id_link (n : Nat) : (link n).id = ⟨linkName n⟩ := by
  cases n <;> rfl

theorem get?_links {m n : Nat} (h : m ≤ n) : (links n).get? ⟨linkName m⟩ = some (link m) := by
  have hfirst : ∀ j < m, linkName j ≠ linkName m := fun j hj he =>
    absurd (linkName_inj.1 he) (Nat.ne_of_lt hj)
  rw [get?, links, List.find?_map, Option.map_eq_some_iff]
  refine ⟨m, List.find?_range_eq_some.2 ⟨?_, List.mem_range.2 (by omega), fun j hj => ?_⟩, rfl⟩
  · simp [id_link]
  · simpa [id_link] using hfirst j hj

/-- Each link nests one property with properties of its own. -/
theorem expand_links {n m : Nat} (h : m ≤ n) (chain : List TypeId)
    (hchain : ∀ k ≤ m, (⟨linkName k⟩ : TypeId) ∉ chain) :
    ∃ ps, (links n).expand "es-mapping" chain ⟨linkName m⟩ = .ok ps ∧
      (Json.object (Property.encodeMembers ps)).depth = 2 * m + 1 := by
  induction m generalizing chain with
  | zero =>
    refine ⟨[], expand_eq_ok_iff.2 ⟨hchain 0 le_rfl, _, get?_links h, ?_⟩, rfl⟩
    exact FieldType.properties_nil
  | succ m ih =>
    have hlonger : ∀ k ≤ m, (⟨linkName k⟩ : TypeId) ∉ ⟨linkName (m + 1)⟩ :: chain := by
      intro k hk
      rw [List.mem_cons, TypeId.mk.injEq, linkName_inj, not_or]
      exact ⟨by omega, hchain k (by omega)⟩
    obtain ⟨ps, hps, hdepth⟩ := ih (Nat.le_of_succ_le h) _ hlonger
    refine ⟨[(MappingTag.resolvedName "x,object" "x",
      .object (MappingTag.writtenKind "x,object") ps)],
      expand_eq_ok_iff.2 ⟨hchain _ le_rfl, _, get?_links h, ?_⟩, ?_⟩
    · refine (FieldType.properties_cons_tagged rfl).2 ⟨by decide, List.not_mem_nil, _, ?_, _,
        FieldType.properties_nil, rfl⟩
      rw [FieldType.property, hps]
      rfl
    · simp only [Property.encodeMembers, Property.encode, Json.depth, Json.depthMembers] at hdepth ⊢
      omega

theorem build_links (n : Nat) :
    ∃ d, ((links n).build "es-mapping" ⟨[], [⟨linkName n⟩]⟩).1 = .ok d ∧
      d.encode.depth = 2 * n + 4 := by
  obtain ⟨ps, hps, hdepth⟩ := expand_links (le_refl n) [] fun _ _ => List.not_mem_nil
  have hentry : (links n).mapping "es-mapping" [] ⟨linkName n⟩ =
      .ok (Identifier.snake (link n).name, ps) := by
    refine mapping_eq_ok_iff.2 ⟨⟨?_, hps⟩, List.not_mem_nil⟩
    rw [mappingName?, get?_links le_rfl]
    rfl
  refine ⟨⟨[(Identifier.snake (link n).name, ps)]⟩, ?_, ?_⟩
  · rw [build, drain, hentry]
    rfl
  · simp only [Document.encode, Document.encodeMapping, List.map_cons, List.map_nil, Json.depth,
      Json.depthMembers] at hdepth ⊢
    omega

/-- A chain of 63 types gives a document that is written compactly but not laid out. -/
theorem run_pretty_links :
    (∃ text, ((links 62).run ⟨"es-mapping", .compact⟩ ⟨[], [⟨linkName 62⟩]⟩).1 = .ok text) ∧
      ¬ ∃ text, ((links 62).run ⟨"es-mapping", .pretty⟩ ⟨[], [⟨linkName 62⟩]⟩).1 = .ok text := by
  obtain ⟨d, hb, hdepth⟩ := build_links 62
  obtain ⟨e, he, -⟩ := (Document.render_pretty (plain_of_build hb)).2 (by rw [hdepth]; decide)
  rw [run_of_build_ok .pretty hb, run_of_build_ok .compact hb, he]
  exact ⟨⟨_, rfl⟩, by simp⟩

end TypeSet

end IndexMapping
