import IndexMapping.Proofs.Package.Siblings
import IndexMapping.Proofs.Schema.Decoding

/-! The number of types that is given with a document. It counts the selected types as often as they
were requested, and the document has each of them once. -/

namespace IndexMapping

theorem length_eraseDups_eq_iff {α : Type} [BEq α] [LawfulBEq α] {l : List α} :
    l.length = l.eraseDups.length ↔ l.Nodup := by
  have hmem : ∀ a, a ∈ l.eraseDups ↔ a ∈ l := fun a => List.mem_eraseDups
  constructor
  · intro hlength
    have hsub : l.eraseDups.Subperm l := (nodup_eraseDups l).subperm fun a => (hmem a).1
    exact (hsub.perm_of_length_le hlength.le).nodup_iff.1 (nodup_eraseDups l)
  · intro hnodup
    have hperm : l.Perm l.eraseDups :=
      (List.perm_ext_iff_of_nodup hnodup (nodup_eraseDups l)).2 fun a => (hmem a).symm
    exact hperm.length_eq

namespace Package

open Files (FileTree)

variable {t : FileTree} {extension path input fallback : String} {p : Package} {s : Settings}
  {o : GenerateOptions} {out : Generated} {files : List SourceFile} {names : List String}
  {ids : List TypeId} {all : Bool}

/-! ### Roots -/

theorem getLastD_sublist_flatten {α : Type} (xss : List (List α)) :
    (xss.getLastD []).Sublist xss.flatten := by
  rcases List.eq_nil_or_concat xss with rfl | ⟨xss, xs, rfl⟩
  · exact List.nil_sublist _
  · rw [List.concat_eq_append]
    simp

/-- The roots of a package are types of different identities. -/
theorem nodup_roots_of_assemble {choose : List (List TypeId) → List TypeId}
    (hchoose : ∀ idss, (choose idss).Sublist idss.flatten)
    (h : assemble fallback choose files = .ok p) : p.roots.Nodup := by
  obtain ⟨package, -, hnodup, rfl⟩ := assemble_eq_ok_iff.1 h
  rw [← flatten_ids] at hnodup
  exact hnodup.sublist (hchoose _)

theorem nodup_roots (h : load t extension path = .ok p) : p.roots.Nodup := by
  unfold load at h
  split at h
  · cases h
  · rw [loadDirectory_eq, bind_eq_ok] at h
    obtain ⟨files, -, hassemble⟩ := h
    exact nodup_roots_of_assemble (fun _ => List.Sublist.refl _) hassemble
  · unfold loadFile at h
    split_ifs at h
    obtain ⟨paths, -, h⟩ := bind_eq_ok.1 h
    obtain ⟨siblings, -, h⟩ := bind_eq_ok.1 h
    obtain ⟨file, -, hassemble⟩ := bind_eq_ok.1 h
    exact nodup_roots_of_assemble getLastD_sublist_flatten hassemble

/-! ### Selected types -/

theorem name_eq_of_rootNamed? {a b : String} {id : TypeId} (ha : p.rootNamed? a = some id)
    (hb : p.rootNamed? b = some id) : a = b := by
  have hname := List.find?_some ha
  have hname' := List.find?_some hb
  cases hd : p.types.get? id with
  | none => simp [hd] at hname
  | some d =>
    simp only [hd, Option.any_some, decide_eq_true_eq] at hname hname'
    exact hname.symm.trans hname'

theorem map_rootNamed?_of_select (hnames : names ≠ []) (h : p.select names all = .ok ids) :
    names.map p.rootNamed? = ids.map some := by
  have hempty : names.isEmpty = false := by simpa using hnames
  rw [select, hempty, if_neg Bool.false_ne_true] at h
  clear hnames hempty
  induction names generalizing ids with
  | nil =>
    cases h
    rfl
  | cons name names ih =>
    obtain ⟨id, rest, hid, hrest, rfl⟩ := mapM_cons_eq_ok.1 h
    rw [List.map_cons, List.map_cons, ih hrest]
    cases hroot : p.rootNamed? name with
    | none => simp [hroot] at hid
    | some root =>
      simp only [hroot, Except.ok.injEq] at hid
      rw [hid]

/-- Different names select different types. -/
theorem rootNamed?_injOn (h : names.map p.rootNamed? = ids.map some) :
    ∀ a ∈ names, ∀ b ∈ names, p.rootNamed? a = p.rootNamed? b → a = b := by
  intro a ha b _ heq
  have hmem : p.rootNamed? a ∈ ids.map some := h ▸ List.mem_map_of_mem ha
  obtain ⟨id, -, hid⟩ := List.mem_map.1 hmem
  exact name_eq_of_rootNamed? hid.symm (heq.symm.trans hid.symm)

theorem nodup_select_iff (hroots : p.roots.Nodup) (h : p.select names all = .ok ids) :
    ids.Nodup ↔ names.Nodup := by
  by_cases hnames : names = []
  · subst hnames
    cases h
    exact iff_of_true (hroots.sublist List.filter_sublist) List.nodup_nil
  · have hmap := map_rootNamed?_of_select hnames h
    rw [← List.nodup_map_iff (Option.some_injective TypeId), ← hmap]
    exact ⟨List.Nodup.of_map _, fun hnodup => hnodup.map_on (rootNamed?_injOn hmap)⟩

/-- As many types are selected as there are different names. -/
theorem length_eraseDups_select (hnames : names ≠ []) (h : p.select names all = .ok ids) :
    ids.eraseDups.length = names.eraseDups.length := by
  have hmap := map_rootNamed?_of_select hnames h
  have hinj := rootNamed?_injOn hmap
  have hnodup : (names.eraseDups.map p.rootNamed?).Nodup :=
    (nodup_eraseDups names).map_on fun a ha b hb =>
      hinj a (List.mem_eraseDups.1 ha) b (List.mem_eraseDups.1 hb)
  have hnodup' : (ids.eraseDups.map some).Nodup :=
    (nodup_eraseDups ids).map (Option.some_injective TypeId)
  have hperm : (names.eraseDups.map p.rootNamed?).Perm (ids.eraseDups.map some) := by
    refine (List.perm_ext_iff_of_nodup hnodup hnodup').2 fun root => ?_
    simp only [List.mem_map, List.mem_eraseDups]
    rw [← List.mem_map, hmap, List.mem_map]
  simpa using hperm.length_eq.symm

/-! ### Generated types -/

/-- The number that is given with a document is that of the requests. The document has one entry
for each of the different ones, so both are equal just when no name is requested twice. -/
theorem generate_typeCount (h : generate t s o input = .ok out) :
    ∃ p ids d, Generates t s o input p ids out ∧
      p.types.document s.compiler.tagKey ids = .ok d ∧
      d.render s.compiler.format = .ok out.text ∧
      (d.encode.depth ≤ 127 → Document.parse out.text = .ok d) ∧
      (d.mappings.map (·.1)).Nodup ∧
      (o.types ≠ [] → out.typeCount = o.types.length ∧
        d.mappings.length = o.types.eraseDups.length) ∧
      (out.typeCount = d.mappings.length ↔ o.types.Nodup) := by
  obtain ⟨p, ids, hgenerates⟩ := generate_eq_ok_iff.1 h
  have htext := hgenerates.text
  rw [TypeSet.run_eq_render, bind_eq_ok] at htext
  obtain ⟨d, hd, hrender⟩ := htext
  obtain ⟨hentries, hnames⟩ := TypeSet.document_ok hd
  have hlength : d.mappings.length = ids.eraseDups.length := by
    rw [← hentries.length_eq, List.length_reverse]
  have hcount := hgenerates.typeCount
  refine ⟨p, ids, d, hgenerates, hd, hrender, fun hfits => ?_, hnames, fun htypes => ⟨?_, ?_⟩, ?_⟩
  · exact Document.parse_of_render (TypeSet.plain_of_build hd) hfits hrender
  · have hmap := congrArg List.length (map_rootNamed?_of_select htypes hgenerates.select)
    rw [List.length_map, List.length_map] at hmap
    rw [hcount, hmap]
  · rw [hlength, length_eraseDups_select htypes hgenerates.select]
  · rw [hcount, hlength, length_eraseDups_eq_iff]
    exact nodup_select_iff (nodup_roots hgenerates.load) hgenerates.select

/-! ### A name that is requested twice -/

def repeatedOptions : GenerateOptions where
  types := ["A", "A"]

def repeatedDocument : Document := ⟨[("a", [])]⟩

theorem document_repeated :
    pairPackage.types.document "es-mapping" [⟨"p.A"⟩, ⟨"p.A"⟩] = .ok repeatedDocument := by
  have hcompile : pairPackage.types.compile "es-mapping" ⟨"p.A"⟩ = .ok [] :=
    TypeSet.expand_eq_ok_iff.2 ⟨List.not_mem_nil, _, rfl, FieldType.properties_nil⟩
  have hentry : pairPackage.types.mapping "es-mapping" [] ⟨"p.A"⟩ =
      .ok (Identifier.snake "A", []) :=
    TypeSet.mapping_eq_ok_iff.2 ⟨⟨rfl, hcompile⟩, List.not_mem_nil⟩
  have honce : ([⟨"p.A"⟩, ⟨"p.A"⟩] : List TypeId).eraseDups.reverse = [⟨"p.A"⟩] := by decide
  rw [TypeSet.document, TypeSet.requests_eq, honce]
  simp only [TypeSet.build, TypeSet.drain, hentry]
  rfl

theorem generate_repeated : generate pairTree pairSettings repeatedOptions "pkg" =
    .ok ⟨"pkg/p_es_mapper.json", repeatedDocument.encode.compact, 2⟩ := by
  have hinput := packageInput_directory isDirectory_pkg false
  have houtput : outputPath pairTree pairSettings "pkg" "p" = .ok "pkg/p_es_mapper.json" := by
    rw [outputPath, if_pos isDirectory_pkg]
    rfl
  refine generate_eq_ok_iff.2 ⟨pairPackage, [⟨"p.A"⟩, ⟨"p.A"⟩], ?_, rfl, ?_, .inr ⟨rfl, ?_⟩, rfl⟩
  · exact hinput ▸ (load_directory isDirectory_pkg).trans loadDirectory_pair
  · exact (TypeSet.run_eq_render pairSettings.compiler _).trans
      (bind_eq_ok.2 ⟨_, document_repeated, rfl⟩)
  · exact hinput ▸ houtput

/-- One type is requested twice and has one entry. -/
theorem typeCount_repeated : ∃ out, generate pairTree pairSettings repeatedOptions "pkg" = .ok out ∧
    out.typeCount = 2 ∧ ∃ d, Document.parse out.text = .ok d ∧ d.mappings.length = 1 := by
  have hplain : repeatedDocument.encode.Plain := TypeSet.plain_of_build document_repeated
  have hrender : repeatedDocument.render .compact = .ok repeatedDocument.encode.compact := rfl
  exact ⟨_, generate_repeated, rfl, _, Document.parse_of_render hplain (by decide) hrender, rfl⟩

theorem generate_typeCount_repeated :
    ∃ out, ∃ d : Document, generate pairTree pairSettings repeatedOptions "pkg" = .ok out ∧
      d.render .compact = .ok out.text ∧
      d.mappings.length = repeatedOptions.types.eraseDups.length ∧
      out.typeCount ≠ d.mappings.length := by
  obtain ⟨p, ids, d, -, -, hrender, -, -, hnames, hcount⟩ := generate_typeCount generate_repeated
  have htwice : ¬ repeatedOptions.types.Nodup := by decide
  exact ⟨_, d, generate_repeated, hrender, (hnames (by decide)).2, fun heq => htwice (hcount.1 heq)⟩

end Package

end IndexMapping
