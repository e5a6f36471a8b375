import IndexMapping.Descriptor.Codec
import IndexMapping.Proofs.Json.Budget
import IndexMapping.Proofs.Json.Decoding
import IndexMapping.Proofs.SortedMap

/-! The JSON form of descriptor files. What is left out when a file is written stands for what is
taken when it is absent, so that a file is decoded from its own text, whatever its names, packages
and tags are. A text that is decoded gives a file that nests no deeper than the text, so that the
reader can take up what is written of it again. -/

namespace IndexMapping

open Json (Decoder Record Variant depthMembers_le_iff depth_array_le_iff depth_object_le_iff)

/-! ### Objects with members that may be absent -/

theorem Json.depth_ofMembers_le_iff {members : List (Option (String × Json))} {n : Nat} :
    (Json.ofMembers members).depth ≤ n + 1 ↔ ∀ m, some m ∈ members → m.2.depth ≤ n := by
  simp [Json.ofMembers, depth_object_le_iff]

theorem SortedMap.ofList_toList {α : Type} (m : SortedMap α) : ofList m.toList = m := by
  have hnodup : (m.toList.map (·.1)).Nodup := by
    refine List.pairwise_map.2 (m.sorted.imp ?_)
    rintro a b hlt
    exact String.ne_of_lt hlt
  apply ext_toList
  refine (perm_ofList hnodup).eq_of_pairwise ?_ (ofList m.toList).sorted m.sorted
  intro a b _ _ hab hba
  exact absurd (String.lt_trans hab hba) (String.lt_irrefl _)

/-! ### Fields -/

def FieldOf.encode (f : Field) : Json :=
  .ofMembers [some ("name", .string f.name), some ("type", f.type.encode), encodeTags f.tags]

theorem FieldType.encodeFields_eq_map (fs : List Field) :
    FieldType.encodeFields fs = fs.map (·.encode) := by
  induction fs with
  | nil => rfl
  | cons f fs ih =>
    obtain ⟨name, type, tags⟩ := f
    rw [FieldType.encodeFields, ih, List.map_cons]
    rfl

theorem FieldType.encode_inline (fs : List Field) :
    (FieldType.inline fs).encode = .object [("inline", .array (fs.map (·.encode)))] := by
  rw [FieldType.encode, encodeFields_eq_map]

/-- A type is decoded if the fields in it are. -/
theorem FieldType.decodes {field : Decoder Field} (τ : FieldType)
    (h : ∀ fs, τ = .inline fs → ∀ f ∈ fs, field.Decodes f.encode f) :
    (FieldType.decoder field).Decodes τ.encode τ := by
  cases τ with
  | scalar source =>
    rw [encode]
    exact Variant.decodes rfl ((Decoder.decodes_string source).map _)
  | reference id =>
    rw [encode]
    exact Variant.decodes rfl ((Decoder.decodes_string id.text).map _)
  | inline fs =>
    rw [encode_inline]
    have hfields := Decoder.decodes_list (fun f _ => ⟨_, rfl⟩) (h fs rfl)
    exact Variant.decodes rfl (hfields.map _)

namespace FieldOf

variable {f : Field} {nesting : Nat}

theorem decodes_tags (tags : SortedMap String) :
    (Decoder.string.table).Decodes (.object (tags.toList.map fun e => (e.1, .string e.2)))
      tags.toList := by
  refine Decoder.decodes_table ?_ fun e _ => Decoder.decodes_string e.2
  refine List.pairwise_map.2 (tags.sorted.imp ?_)
  rintro a b hlt
  exact String.ne_of_lt hlt

theorem gathers {field : Decoder Field}
    (h : (FieldType.decoder field).Decodes f.type.encode f.type) :
    ∃ s : PartialField, (Field.record field).complete s = .ok f ∧
      (Field.record field).Gathers {} ([some ("name", .string f.name), some ("type", f.type.encode),
        encodeTags f.tags].filterMap id) s := by
  obtain ⟨name, type, tags⟩ := f
  have hname := Decoder.decodes_string name
  by_cases htags : tags.isEmpty
  · have hnone : encodeTags tags = none := by simp [encodeTags, htags]
    refine ⟨{ name := some name, type := some type }, ?_, ?_⟩
    · have hempty : tags = .empty := SortedMap.ext_toList (List.isEmpty_iff.1 htags)
      rw [hempty]
      rfl
    · rw [hnone]
      exact .update rfl rfl hname (.update rfl rfl h (.nil _))
  · have hsome : encodeTags tags =
        some ("tags", .object (tags.toList.map fun e => (e.1, .string e.2))) := by
      simp [encodeTags, htags]
    refine ⟨{ name := some name, type := some type, tags := some (.ofList tags.toList) }, ?_, ?_⟩
    · show Except.ok (⟨name, type, .ofList tags.toList⟩ : Field) = _
      rw [SortedMap.ofList_toList]
    · rw [hsome]
      exact .update rfl rfl hname (.update rfl rfl h (.update rfl rfl (decodes_tags tags) (.nil _)))

/-- A field is decoded if brackets may nest as deeply as it does. -/
theorem decodes (hfits : f.encode.depth ≤ nesting) :
    (Field.decoder nesting).Decodes f.encode f := by
  induction nesting generalizing f with
  | zero => simp [encode, Json.ofMembers, Json.depth] at hfits
  | succ nesting ih =>
    have htype : f.type.encode.depth ≤ nesting :=
      Json.depth_ofMembers_le_iff.1 hfits ("type", f.type.encode) (by simp)
    have hdecodes : (FieldType.decoder (Field.decoder nesting)).Decodes f.type.encode f.type := by
      refine FieldType.decodes f.type fun fs hfs g hg => ?_
      rw [hfs, FieldType.encode_inline] at htype
      have hdepth := depthMembers_le_iff.1 (Nat.le_of_lt htype) _ List.mem_cons_self
      exact ih (depth_array_le_iff.1 (Nat.le_succ_of_le hdepth) _ (List.mem_map_of_mem hg))
    obtain ⟨s, hs, hgathers⟩ := gathers hdecodes
    exact Record.decodes_of_gathers hgathers hs

end FieldOf

/-! ### Types and files -/

namespace TypeDescriptor

variable {d : TypeDescriptor} {nesting : Nat}

theorem encode_eq (d : TypeDescriptor) :
    d.encode = .ofMembers [some ("name", .string d.name), encodePackage d.package,
      some ("annotated", .bool d.annotated),
      some ("fields", .array (d.fields.map (·.encode)))] := by
  rw [encode, FieldType.encodeFields_eq_map]

theorem gathers (h : (Field.decoder nesting).list.Decodes (.array (d.fields.map (·.encode)))
      d.fields) :
    ∃ s : PartialType, (record nesting).complete s = .ok d ∧
      (record nesting).Gathers {} ([some ("name", .string d.name), encodePackage d.package,
        some ("annotated", .bool d.annotated),
        some ("fields", .array (d.fields.map (·.encode)))].filterMap fun m => m) s := by
  obtain ⟨name, package, annotated, fields⟩ := d
  have hname := Decoder.decodes_string name
  have hannotated := Decoder.decodes_bool annotated
  cases package with
  | none =>
    exact ⟨⟨some name, none, some annotated, some fields⟩, rfl,
      .update rfl rfl hname (.update rfl rfl hannotated (.update rfl rfl h (.nil _)))⟩
  | some package =>
    have hpackage := Decoder.decodes_nullable_string package
    exact ⟨⟨some name, some (some package), some annotated, some fields⟩, rfl,
      .update rfl rfl hname (.update rfl rfl hpackage
        (.update rfl rfl hannotated (.update rfl rfl h (.nil _))))⟩

theorem depth_le_of_mem {f : Field} (hf : f ∈ d.fields) (h : d.encode.depth ≤ nesting + 2) :
    f.encode.depth ≤ nesting := by
  rw [encode_eq] at h
  have hfields : (Json.array (d.fields.map (·.encode))).depth ≤ nesting + 1 :=
    Json.depth_ofMembers_le_iff.1 h ("fields", .array (d.fields.map (·.encode))) (by simp)
  exact depth_array_le_iff.1 hfields _ (List.mem_map_of_mem hf)

theorem decodes (h : d.encode.depth ≤ nesting + 2) :
    (record nesting).decoder.Decodes d.encode d := by
  have hfields : (Field.decoder nesting).list.Decodes (.array (d.fields.map (·.encode)))
      d.fields :=
    Decoder.decodes_list (fun f _ => ⟨_, rfl⟩) fun f hf => FieldOf.decodes (depth_le_of_mem hf h)
  obtain ⟨s, hs, hgathers⟩ := gathers hfields
  rw [encode_eq]
  exact Record.decodes_of_gathers hgathers hs

end TypeDescriptor

namespace DescriptorFile

variable {f : DescriptorFile} {nesting : Nat}

theorem gathers
    (h : (TypeDescriptor.record nesting).decoder.list.Decodes (.array (f.types.map (·.encode)))
      f.types) :
    ∃ s : PartialFile, (record nesting).complete s = .ok f ∧
      (record nesting).Gathers {} ([encodePackage f.package,
        some ("types", .array (f.types.map (·.encode)))].filterMap id) s := by
  obtain ⟨package, types⟩ := f
  cases package with
  | none => exact ⟨⟨none, some types⟩, rfl, .update rfl rfl h (.nil _)⟩
  | some package =>
    exact ⟨⟨some (some package), some types⟩, rfl,
      .update rfl rfl (Decoder.decodes_nullable_string package) (.update rfl rfl h (.nil _))⟩

theorem decodes (h : f.encode.depth ≤ nesting + 2) :
    (record nesting).decoder.Decodes f.encode f := by
  have htypes : (Json.array (f.types.map (·.encode))).depth ≤ nesting + 1 :=
    Json.depth_ofMembers_le_iff.1 h ("types", .array (f.types.map (·.encode))) (by simp)
  have hdecodes : (TypeDescriptor.record nesting).decoder.list.Decodes
      (.array (f.types.map (·.encode))) f.types := by
    refine Decoder.decodes_list (fun d _ => ⟨_, rfl⟩) fun d hd => TypeDescriptor.decodes ?_
    have hfits := depth_array_le_iff.1 htypes _ (List.mem_map_of_mem hd)
    omega
  obtain ⟨s, hs, hgathers⟩ := gathers hdecodes
  exact Record.decodes_of_gathers hgathers hs

end DescriptorFile

/-! ### How deep decoded files are -/

theorem FieldType.one_le_depth (τ : FieldType) : 1 ≤ τ.encode.depth := by
  cases τ <;> simp [encode, Json.depth]

/-- A type nests one bracket more than the fields in it. -/
theorem FieldType.ensures_depth {field : Decoder Field}
    (h : field.Ensures fun n f => f.encode.depth ≤ n) :
    (FieldType.decoder field).Ensures fun n τ => τ.encode.depth ≤ n := by
  have hvariant : (FieldType.decoder field).Ensures
      fun n τ => ∃ m, n = m + 1 ∧ τ.encode.depth ≤ m + 1 := by
    apply Variant.ensures
    intro a ha
    simp only [List.mem_cons, List.not_mem_nil, or_false] at ha
    obtain rfl | rfl | rfl := ha
    · refine ⟨rfl, _, rfl, Decoder.ensures_map fun m s => ?_⟩
      simp [encode, Json.depth, Json.depthMembers]
    · refine ⟨rfl, _, rfl, Decoder.ensures_map fun m s => ?_⟩
      simp [encode, Json.depth, Json.depthMembers]
    · refine ⟨rfl, _, rfl, h.list.map ?_⟩
      rintro _ fs ⟨m, rfl, hdepth⟩
      rw [encode_inline, depth_object_le_iff, List.forall_mem_singleton, depth_array_le_iff]
      exact List.forall_mem_map.2 hdepth
  intro budget cs τ rest hτ
  obtain ⟨m, rfl, hdepth⟩ := hvariant budget cs τ rest hτ
  exact hdepth

theorem FieldOf.depth_le {f : Field} {n : Nat} (h : f.type.encode.depth ≤ n) :
    f.encode.depth ≤ n + 1 := by
  have hone := f.type.one_le_depth
  rw [encode, Json.depth_ofMembers_le_iff]
  simp only [List.mem_cons, List.not_mem_nil, or_false]
  rintro m (hm | hm | hm)
  · cases hm
    simp [Json.depth]
  · cases hm
    exact h
  · unfold encodeTags at hm
    split at hm
    · cases hm
    · cases hm
      have hstrings : (Json.object (f.tags.toList.map fun e => (e.1, .string e.2))).depth ≤ 0 + 1 :=
        depth_object_le_iff.2 (List.forall_mem_map.2 fun e _ => by simp [Json.depth])
      exact Nat.le_trans hstrings (by omega)

/-- What the type of a field nests, once it is set. -/
def PartialField.Within (n : Nat) (s : PartialField) : Prop :=
  ∀ τ, s.type = some τ → τ.encode.depth ≤ n

theorem Field.keeps_within {field : Decoder Field}
    (h : field.Ensures fun n f => f.encode.depth ≤ n) :
    ∀ f ∈ (record field).fields, f.Keeps PartialField.Within := by
  intro f hf
  simp only [record, List.mem_cons, List.not_mem_nil, or_false] at hf
  obtain rfl | rfl | rfl := hf
  · exact Json.RecordField.keeps fun _ _ _ hs => hs
  · refine Json.RecordField.keeps_of_ensures (FieldType.ensures_depth h) ?_
    intro n τ s hτ _ σ hσ
    cases hσ
    exact hτ
  · exact Json.RecordField.keeps fun _ _ _ hs => hs

theorem Field.ensures_depth (nesting : Nat) :
    (Field.decoder nesting).Ensures fun n f => f.encode.depth ≤ n := by
  induction nesting with
  | zero => exact Decoder.ensures_tooDeep
  | succ nesting ih =>
    intro budget cs f rest hf
    have hempty : ∀ n, PartialField.Within n (record (decoder nesting)).empty :=
      fun n τ hτ => by cases hτ
    obtain ⟨m, rfl, s, hs, hcomplete⟩ :=
      Record.ensures_decoder hempty (keeps_within ih) budget cs f rest hf
    apply FieldOf.depth_le
    simp only [record] at hcomplete
    split at hcomplete
    · cases hcomplete
    · cases hcomplete
    next τ _ hτ =>
      cases hcomplete
      exact hs _ hτ

/-- What the fields of a type nest, once they are set. -/
def PartialType.Within (n : Nat) (s : PartialType) : Prop :=
  ∀ fs, s.fields = some fs → ∃ m, n = m + 1 ∧ ∀ f ∈ fs, f.encode.depth ≤ m

/-- What the types of a file nest, once they are set. -/
def PartialFile.Within (n : Nat) (s : PartialFile) : Prop :=
  ∀ ds, s.types = some ds → ∃ m, n = m + 1 ∧ ∀ d ∈ ds, d.encode.depth ≤ max m 2

theorem encodePackage_depth {package : Option String} {m : String × Json}
    (h : encodePackage package = some m) : m.2.depth = 0 := by
  obtain ⟨p, -, rfl⟩ := Option.map_eq_some_iff.1 h
  rfl

namespace TypeDescriptor

theorem depth_le {d : TypeDescriptor} {n : Nat} (h : ∀ f ∈ d.fields, f.encode.depth ≤ n) :
    d.encode.depth ≤ n + 2 := by
  rw [encode_eq, Json.depth_ofMembers_le_iff]
  simp only [List.mem_cons, List.not_mem_nil, or_false]
  rintro m (hm | hm | hm | hm)
  · cases hm
    simp [Json.depth]
  · rw [encodePackage_depth hm.symm]
    omega
  · cases hm
    simp [Json.depth]
  · cases hm
    exact depth_array_le_iff.2 (List.forall_mem_map.2 h)

theorem keeps_within (nesting : Nat) :
    ∀ f ∈ (record nesting).fields, f.Keeps PartialType.Within := by
  intro f hf
  simp only [record, List.mem_cons, List.not_mem_nil, or_false] at hf
  obtain rfl | rfl | rfl | rfl := hf
  · exact Json.RecordField.keeps fun _ _ _ hs => hs
  · exact Json.RecordField.keeps fun _ _ _ hs => hs
  · exact Json.RecordField.keeps fun _ _ _ hs => hs
  · refine Json.RecordField.keeps_of_ensures (Field.ensures_depth nesting).list ?_
    intro n fs s hfs _ gs hgs
    cases hgs
    exact hfs

/-- The list of fields is written even if it was absent. -/
theorem ensures_depth (nesting : Nat) :
    (record nesting).decoder.Ensures fun n d => d.encode.depth ≤ max n 2 := by
  intro budget cs d rest hd
  have hempty : ∀ n, PartialType.Within n (record nesting).empty := fun n fs hfs => by cases hfs
  obtain ⟨m, rfl, s, hs, hcomplete⟩ :=
    Record.ensures_decoder hempty (keeps_within nesting) budget cs d rest hd
  have hfields : d.fields = s.fields.getD [] := by
    simp only [record] at hcomplete
    split at hcomplete
    · cases hcomplete
    · cases hcomplete
      rfl
  cases hset : s.fields with
  | none =>
    rw [hset, Option.getD_none] at hfields
    have hdepth : d.encode.depth ≤ 0 + 2 := depth_le (by simp [hfields])
    omega
  | some fs =>
    obtain ⟨k, rfl, hfs⟩ := hs fs hset
    rw [hset, Option.getD_some] at hfields
    have hdepth : d.encode.depth ≤ k + 2 := depth_le (hfields ▸ hfs)
    omega

end TypeDescriptor

namespace DescriptorFile

theorem depth_le {f : DescriptorFile} {n : Nat} (h : ∀ d ∈ f.types, d.encode.depth ≤ n) :
    f.encode.depth ≤ n + 2 := by
  rw [encode, Json.depth_ofMembers_le_iff]
  simp only [List.mem_cons, List.not_mem_nil, or_false]
  rintro m (hm | hm)
  · rw [encodePackage_depth hm.symm]
    omega
  · cases hm
    exact depth_array_le_iff.2 (List.forall_mem_map.2 h)

theorem keeps_within (nesting : Nat) :
    ∀ f ∈ (record nesting).fields, f.Keeps PartialFile.Within := by
  intro f hf
  simp only [record, List.mem_cons, List.not_mem_nil, or_false] at hf
  obtain rfl | rfl := hf
  · exact Json.RecordField.keeps fun _ _ _ hs => hs
  · refine Json.RecordField.keeps_of_ensures (TypeDescriptor.ensures_depth nesting).list ?_
    intro n ds s hds _ es hes
    cases hes
    exact hds

theorem ensures_depth (nesting : Nat) :
    (record nesting).decoder.Ensures fun n f => f.encode.depth ≤ max n 4 := by
  intro budget cs f rest hf
  have hempty : ∀ n, PartialFile.Within n (record nesting).empty := fun n ds hds => by cases hds
  obtain ⟨m, rfl, s, hs, hcomplete⟩ :=
    Record.ensures_decoder hempty (keeps_within nesting) budget cs f rest hf
  have htypes : f.types = s.types.getD [] := by
    cases hcomplete
    rfl
  cases hset : s.types with
  | none =>
    rw [hset, Option.getD_none] at htypes
    have hdepth : f.encode.depth ≤ 0 + 2 := depth_le (by simp [htypes])
    omega
  | some ds =>
    obtain ⟨k, rfl, hds⟩ := hs ds hset
    rw [hset, Option.getD_some] at htypes
    have hdepth : f.encode.depth ≤ max k 2 + 2 := depth_le (htypes ▸ hds)
    omega

/-! ### Reading back what is written -/

theorem depth_le_of_parse {text : String} {f : DescriptorFile} (h : parse text = .ok f) :
    f.encode.depth ≤ Json.depthLimit :=
  Json.of_readWhole (ensures_depth Json.depthLimit Json.depthLimit) h

theorem parse_encode {f : DescriptorFile} (hfits : f.encode.depth ≤ Json.depthLimit) :
    parse f.encode.compact = .ok f :=
  (decodes (Nat.le_add_right_of_le hfits)).parse_eq (Json.written_compact f.encode) hfits

/-- What is written of the file that a text holds. -/
def rewrite (text : String) : Except Json.ReadError String := (parse text).map (·.encode.compact)

/-- A file that is read from a text is read from what is written of it, so that what is written
stays as it is when it is read and written again; and a file that no text has given yet is read
from its own text if that nests no more than a reader takes up. -/
theorem round_trip :
    (∀ text f, parse text = .ok f →
        rewrite text = .ok f.encode.compact ∧ parse f.encode.compact = .ok f ∧
          rewrite f.encode.compact = .ok f.encode.compact) ∧
      ∀ f : DescriptorFile, f.encode.depth ≤ 127 → parse f.encode.compact = .ok f := by
  constructor
  · intro text f h
    have hagain : parse f.encode.compact = .ok f := parse_encode (depth_le_of_parse h)
    refine ⟨?_, hagain, ?_⟩
    · rw [rewrite, h]
      rfl
    · rw [rewrite, hagain]
      rfl
  · intro f hfits
    exact parse_encode hfits

/-- An empty package beside none, an absent tag table beside an empty tag, an empty list of fields
in place, and names that are empty or hold quotation marks, control characters and letters beyond
ASCII. -/
def oddFile : DescriptorFile := ⟨some "", [
  ⟨"A\"\\", none, true, []⟩,
  ⟨"", some "", false, [
    ⟨"é\n", .inline [⟨"", .inline [], .empty⟩], ⟨[("", ""), ("k\u0001", "\"é")], by decide⟩⟩,
    ⟨"x", .reference ⟨".."⟩, .empty⟩,
    ⟨"y", .scalar "", ⟨[("es-mapping", "")], by simp⟩⟩]⟩]⟩

/-- A type given by its name in a list, in a file whose package is `null`. -/
def briefFile : DescriptorFile := ⟨none, [⟨"A", none, false, []⟩]⟩

theorem round_trip_odd :
    parse "\x7b\"package\":null,\"types\":[[\"A\"]]\x7d" = .ok briefFile ∧
      (let text := "\x7b\"types\":[\x7b\"name\":\"A\",\"annotated\":false,\"fields\":[]\x7d]\x7d"
      parse text = .ok briefFile ∧ rewrite text = .ok text) ∧
      oddFile.encode.depth ≤ 127 ∧ parse oddFile.encode.compact = .ok oddFile := by
  have hbrief : parse "\x7b\"package\":null,\"types\":[[\"A\"]]\x7d" = .ok briefFile := rfl
  have hfits : oddFile.encode.depth ≤ 127 := by decide
  have hagain := round_trip.1 _ briefFile hbrief
  exact ⟨hbrief, hagain.2, hfits, round_trip.2 oddFile hfits⟩

end DescriptorFile

end IndexMapping
