import IndexMapping.Proofs.Package.Generating
import IndexMapping.Proofs.Package.Loading

/-! A descriptor file and the directory it is in. A file makes a package just when its directory
does. It offers its block of the types of the directory, and all other types are at hand for its
references. -/

namespace IndexMapping.Package

open Files (FileTree)
open Files.Path (directory stem?)

variable {t : FileTree} {extension path entry text : String} {xs ys : List String}
  {f : SourceFile} {fs gs : List SourceFile} {p q : Package} {d : Document}

/-! ### Packages -/

/-- `p` has the name and the types of `q`, and its roots are those of one of the files of `q`. -/
structure IsPart (fs : List SourceFile) (f : SourceFile) (gs : List SourceFile)
    (p q : Package) : Prop where
  name : p.name = q.name
  types : ∀ id, p.types.get? id = q.types.get? id
  roots : ∃ package, Declares (fs ++ f :: gs) package ∧
    p.roots = f.contents.types.map (identity package) ∧
    q.roots = (listed fs).map (identity package) ++ p.roots ++
      (listed gs).map (identity package)

theorem perm_last : (fs ++ f :: gs).Perm (fs ++ gs ++ [f]) :=
  List.perm_middle.trans (List.perm_append_singleton _ _).symm

theorem contents_last : (fs ++ gs ++ [⟨path, f.contents⟩] : List SourceFile).map (·.contents) =
    (fs ++ gs ++ [f]).map (·.contents) := by
  simp only [List.map_append, List.map_singleton]

/-- A file may as well be read last, under another path. -/
theorem exists_assemble_last_iff {fallback : String} :
    (∃ p, assemble fallback (·.getLastD []) (fs ++ gs ++ [⟨path, f.contents⟩]) = .ok p) ↔
      ∃ q, assemble fallback List.flatten (fs ++ f :: gs) = .ok q := by
  constructor
  · rintro ⟨p, hp⟩
    have hlast := exists_assemble_of_perm perm_last.symm ⟨p, assemble_of_contents contents_last hp⟩
    exact exists_assemble_iff.2 (exists_assemble_iff.1 hlast)
  · intro hq
    have hall : ∃ p, assemble fallback (·.getLastD []) (fs ++ f :: gs) = .ok p :=
      exists_assemble_iff.2 (exists_assemble_iff.1 hq)
    obtain ⟨p, hp⟩ := exists_assemble_of_perm perm_last hall
    exact ⟨p, assemble_of_contents contents_last.symm hp⟩

theorem isPart_of_assemble {fallback : String}
    (hp : assemble fallback (·.getLastD []) (fs ++ gs ++ [⟨path, f.contents⟩]) = .ok p)
    (hq : assemble fallback List.flatten (fs ++ f :: gs) = .ok q) : IsPart fs f gs p q := by
  have hp := assemble_of_contents contents_last hp
  obtain ⟨hname, htypes⟩ := get?_assemble_of_perm perm_last hq hp
  obtain ⟨package, hdeclares, -, rfl⟩ := assemble_eq_ok_iff.1 hq
  obtain ⟨package', hdeclares', -, rfl⟩ := assemble_eq_ok_iff.1 hp
  obtain rfl := (hdeclares.perm perm_last).unique hdeclares'
  have hlast : ((fs ++ gs ++ [f]).map
      fun f => f.contents.types.map (identity package)).getLastD [] =
        f.contents.types.map (identity package) := by
    rw [List.map_append, List.map_singleton, List.getLastD_concat]
  refine ⟨hname, htypes, package, hdeclares, hlast, ?_⟩
  rw [hlast, List.map_append, List.map_cons, List.flatten_append, List.flatten_cons,
    flatten_ids, flatten_ids, List.append_assoc]

theorem Listed.exists_load_iff (h : Listed t extension path xs entry ys)
    (hstem : (stem? extension path).isSome) : (∃ p, loadFile t extension path = .ok p) ↔
      ∃ q, loadDirectory t extension (directory path) = .ok q := by
  simp only [loadDirectory_eq, bind_eq_ok, h.readFiles_eq_ok_iff, h.loadFile_eq_ok_iff hstem]
  constructor
  · rintro ⟨p, fs, f, gs, hfs, hf, hgs, hp⟩
    obtain ⟨q, hq⟩ := exists_assemble_last_iff.1 ⟨p, hp⟩
    exact ⟨q, _, ⟨fs, f, gs, hfs, hf, hgs, rfl⟩, hq⟩
  · rintro ⟨q, _, ⟨fs, f, gs, hfs, hf, hgs, rfl⟩, hq⟩
    obtain ⟨p, hp⟩ := exists_assemble_last_iff.2 ⟨q, hq⟩
    exact ⟨p, fs, f, gs, hfs, hf, hgs, hp⟩

theorem Listed.exists_isPart (h : Listed t extension path xs entry ys)
    (hstem : (stem? extension path).isSome) (hp : loadFile t extension path = .ok p)
    (hq : loadDirectory t extension (directory path) = .ok q) :
    ∃ fs f gs, readFiles t extension (directory path) = .ok (fs ++ f :: gs) ∧
      readDescriptor t path = .ok ⟨path, f.contents⟩ ∧ IsPart fs f gs p q := by
  obtain ⟨fs, f, gs, hfs, hf, hgs, hp⟩ := (h.loadFile_eq_ok_iff hstem).1 hp
  have hfiles := h.readFiles_eq_ok_iff.2 ⟨fs, f, gs, hfs, hf, hgs, rfl⟩
  rw [loadDirectory_eq, hfiles, ok_bind] at hq
  exact ⟨fs, f, gs, hfiles, readDescriptor_of_resolve h.resolve hf, isPart_of_assemble hp hq⟩

/-- A part of a package prints entries of the whole. -/
theorem IsPart.exists_prints {c : CompilerSettings} (h : IsPart fs f gs p q)
    (hq : q.Prints c d text) : ∃ d' text', p.Prints c d' text' ∧
      ∀ e ∈ d'.mappings, d.mappings.lookup e.1 = some e.2 := by
  obtain ⟨package, -, -, hroots⟩ := h.roots
  have hsub : p.roots ⊆ q.roots := by
    rw [hroots]
    exact fun id hid => List.mem_append_left _ (List.mem_append_right _ hid)
  obtain ⟨d', hd', hmappings⟩ := TypeSet.exists_document_of_subset hq.document h.types hsub
  obtain ⟨text', htext'⟩ := Document.exists_render_of_subset (TypeSet.plain_of_build hq.document)
    (TypeSet.plain_of_build hd') hmappings hq.render
  refine ⟨d', text', ⟨hd', htext'⟩, fun e he => ?_⟩
  exact Document.lookup_of_mem (TypeSet.document_ok hq.document).2 (hmappings he)

/-- In a directory in which no two descriptor files are the same file, each of them makes a package
just when the directory does. Both packages have the same name and the same types, and the roots
of the file are its block of the roots of the directory. So what is generated from all types of the
directory is generated from all types of the file as well, with entries that the directory has
under the same names. -/
theorem loadFile_siblings (t : FileTree) (extension path : String) (hfile : t.isFile path)
    (hstem : (stem? extension path).isSome)
    (hdistinct : ∀ paths, descriptorFiles t extension (directory path) = .ok paths →
      (paths.map t.canonical?).Nodup) :
    ((∃ p, loadFile t extension path = .ok p) ↔
      ∃ q, loadDirectory t extension (directory path) = .ok q) ∧
    (∀ p q, loadFile t extension path = .ok p →
      loadDirectory t extension (directory path) = .ok q →
      ∃ fs f gs, readFiles t extension (directory path) = .ok (fs ++ f :: gs) ∧
        readDescriptor t path = .ok ⟨path, f.contents⟩ ∧ IsPart fs f gs p q) ∧
    ∀ s o o' out, s.input.extension = extension → s.input.allTypes = true → o.types = [] →
      o'.types = [] → o'.package = false → generate t s o (directory path) = .ok out →
      ∃ out' p q d d', generate t s o' path = .ok out' ∧ loadFile t extension path = .ok p ∧
        loadDirectory t extension (directory path) = .ok q ∧ q.Prints s.compiler d out.text ∧
        p.Prints s.compiler d' out'.text ∧
        ∀ e ∈ d'.mappings, d.mappings.lookup e.1 = some e.2 := by
  obtain ⟨xs, entry, ys, hlisted⟩ := exists_listed hfile hstem hdistinct
  refine ⟨hlisted.exists_load_iff hstem, fun p q hp hq => hlisted.exists_isPart hstem hp hq, ?_⟩
  rintro s o o' out rfl hall htypes htypes' hpackage hout
  obtain ⟨q, d, hq, hprints⟩ := prints_of_generate hlisted.isDirectory htypes hall hout
  obtain ⟨p, hp⟩ := (hlisted.exists_load_iff hstem).2 ⟨q, hq⟩
  obtain ⟨_, _, _, -, -, hpart⟩ := hlisted.exists_isPart hstem hp hq
  obtain ⟨d', text, hprints', hlookup⟩ := hpart.exists_prints hprints
  obtain ⟨out', hout', rfl⟩ := exists_generate hfile hstem htypes' hpackage hall hp hprints'
  exact ⟨out', p, q, d, d', hout', hp, hq, hprints, hprints', hlookup⟩

/-! ### Two files in one directory -/

/-- One type, in no package. -/
def looseText : String := "\x7b\"types\":[\x7b\"name\":\"A\"\x7d]\x7d"

/-- One type, in a package. -/
def declaringText : String := "\x7b\"package\":\"p\",\"types\":[\x7b\"name\":\"B\"\x7d]\x7d"

/-- A directory with these files. -/
def pairEntries : List (String × Files.Node) := [
  ("a.types.json", .file (Text.Utf8.encode looseText)),
  ("b.types.json", .file (Text.Utf8.encode declaringText))]

def pairTree : FileTree where
  root := [("pkg", .directory pairEntries)]
  work := []
  workText := "/"

def pairSettings : Settings where
  compiler := { format := .compact }
  input := { allTypes := true }

def pairPackage : Package where
  name := "p"
  types := ⟨[⟨"A", some "p", false, []⟩, ⟨"B", some "p", false, []⟩]⟩
  roots := [⟨"p.A"⟩, ⟨"p.B"⟩]

theorem resolve_pair {path : String} {place : List String} {node : Files.Node}
    (names : List String) (hpath : FileTree.Passable path)
    (hnames : Files.Path.segments path = "pkg" :: names)
    (h : pairTree.walk .followed FileTree.linkLimit ["pkg"] names = .ok (.found place node)) :
    pairTree.resolve path = .ok (place, node) := by
  have hrelative : (if Files.Path.isAbsolute path then [] else pairTree.work) = [] := by
    rw [pairTree, ite_self]
  have henter : pairTree.enter FileTree.linkLimit [] "pkg" =
      .ok ⟨FileTree.linkLimit, ["pkg"], []⟩ := rfl
  rw [FileTree.resolve_eq_ok_iff, FileTree.locate_of_passable hpath, hnames, hrelative,
    FileTree.walk_of_enter henter]
  exact h

theorem resolve_pkg : pairTree.resolve "pkg" = .ok (["pkg"], .directory pairEntries) := by
  refine resolve_pair [] ⟨by decide, by decide, by decide⟩ (by decide) ?_
  rw [FileTree.walk]
  rfl

theorem resolve_loose : pairTree.resolve "pkg/a.types.json" =
    .ok (["pkg", "a.types.json"], .file (Text.Utf8.encode looseText)) := by
  refine resolve_pair ["a.types.json"] ⟨by decide, by decide, by decide⟩ (by decide) ?_
  rw [FileTree.walk]
  rfl

theorem resolve_declaring : pairTree.resolve "pkg/b.types.json" =
    .ok (["pkg", "b.types.json"], .file (Text.Utf8.encode declaringText)) := by
  refine resolve_pair ["b.types.json"] ⟨by decide, by decide, by decide⟩ (by decide) ?_
  rw [FileTree.walk]
  rfl

theorem descriptorFiles_pair : descriptorFiles pairTree "types.json" "pkg" =
    .ok ["pkg/a.types.json", "pkg/b.types.json"] := by
  have hsorted : (pairEntries.map (·.1)).mergeSort (fun a b => a ≤ b) =
      ["a.types.json", "b.types.json"] := List.mergeSort_of_pairwise (by decide)
  have hjoined : ["a.types.json", "b.types.json"].map (Files.Path.join "pkg") =
      ["pkg/a.types.json", "pkg/b.types.json"] := by decide
  rw [descriptorFiles_directory resolve_pkg, hsorted, hjoined]
  simp only [List.filter, FileTree.isFile, resolve_loose, resolve_declaring]
  rfl

theorem loadDirectory_pair : loadDirectory pairTree "types.json" "pkg" = .ok pairPackage := by
  have hloose : readDescriptor pairTree "pkg/a.types.json" =
      .ok ⟨"pkg/a.types.json", none, [⟨"A", none, false, []⟩]⟩ := by
    have htext : Text.Utf8.decode? (Text.Utf8.encode looseText) = some looseText := by
      decide +kernel
    simp only [readDescriptor, FileTree.readText, FileTree.readBytes, resolve_loose, htext]
    rfl
  have hdeclaring : readDescriptor pairTree "pkg/b.types.json" =
      .ok ⟨"pkg/b.types.json", some "p", [⟨"B", none, false, []⟩]⟩ := by
    have htext : Text.Utf8.decode? (Text.Utf8.encode declaringText) = some declaringText := by
      decide +kernel
    simp only [readDescriptor, FileTree.readText, FileTree.readBytes, resolve_declaring, htext]
    rfl
  rw [loadDirectory_eq, readFiles, descriptorFiles_pair, ok_bind, List.mapM_cons, hloose,
    ok_bind, List.mapM_cons, hdeclaring]
  rfl

theorem isDirectory_pkg : pairTree.isDirectory "pkg" :=
  FileTree.isDirectory_iff.2 ⟨_, _, resolve_pkg⟩

theorem document_pair : ∃ d, pairPackage.types.document "es-mapping" pairPackage.roots = .ok d := by
  have hdups : pairPackage.roots.eraseDups = pairPackage.roots := by decide
  have hknown : ∀ id ∈ pairPackage.roots,
      ∃ d, pairPackage.types.get? id = some d ∧ d.fields = [] := by decide
  rw [TypeSet.exists_document_iff, hdups]
  refine ⟨fun id hid => ?_, fun id hid => ?_, by decide⟩
  · obtain ⟨d, hd, -⟩ := hknown id hid
    exact ⟨d, hd⟩
  · obtain ⟨d, hd, hfields⟩ := hknown id hid
    refine ⟨[], TypeSet.expand_eq_ok_iff.2 ⟨List.not_mem_nil, d, hd, ?_⟩⟩
    rw [hfields]
    exact FieldType.properties_nil

theorem generate_pair (suffix : String) : ∃ text,
    generate pairTree { pairSettings with output := { fileSuffix := suffix } } {} "pkg" =
      .ok ⟨Files.Path.join "pkg" ("p" ++ suffix), text, 2⟩ := by
  obtain ⟨d, hd⟩ := document_pair
  have hinput := packageInput_directory isDirectory_pkg false
  refine ⟨d.encode.compact, generate_eq_ok_iff.2
    ⟨pairPackage, pairPackage.roots, ?_, select_all _, ?_, .inr ⟨rfl, ?_⟩, rfl⟩⟩
  · exact hinput ▸ (load_directory isDirectory_pkg).trans loadDirectory_pair
  · exact run_roots_eq_ok_iff.2 ⟨d, hd, rfl⟩
  · rw [hinput, outputPath, if_pos isDirectory_pkg]
    rfl

theorem loadFile_siblings_pair :
    pairTree.isFile "pkg/a.types.json" ∧ (stem? "types.json" "pkg/a.types.json").isSome ∧
      descriptorFiles pairTree "types.json" (directory "pkg/a.types.json") =
        .ok ["pkg/a.types.json", "pkg/b.types.json"] ∧
      (["pkg/a.types.json", "pkg/b.types.json"].map pairTree.canonical?).Nodup ∧
      loadDirectory pairTree "types.json" "pkg" = .ok pairPackage ∧
      (∃ p, loadFile pairTree "types.json" "pkg/a.types.json" = .ok p ∧ p.name = "p") ∧
      ∃ out, generate pairTree pairSettings {} "pkg/a.types.json" = .ok out := by
  have hfile : pairTree.isFile "pkg/a.types.json" := FileTree.isFile_iff.2 ⟨_, _, resolve_loose⟩
  have hstem : (stem? "types.json" "pkg/a.types.json").isSome := by decide
  have hdirectory : directory "pkg/a.types.json" = "pkg" := by decide
  have hnodup : (["pkg/a.types.json", "pkg/b.types.json"].map pairTree.canonical?).Nodup := by
    simp [FileTree.canonical?, resolve_loose, resolve_declaring]
  have hpaths := descriptorFiles_pair
  have hq := loadDirectory_pair
  obtain ⟨text, hout⟩ := generate_pair "_es_mapper.json"
  rw [← hdirectory] at hpaths hq hout
  obtain ⟨hload, hpart, hgenerate⟩ := loadFile_siblings pairTree "types.json" "pkg/a.types.json"
    hfile hstem fun paths h => by rwa [← Except.ok.inj (hpaths.symm.trans h)]
  obtain ⟨p, hp⟩ := hload.2 ⟨_, hq⟩
  obtain ⟨_, _, _, -, -, hpart⟩ := hpart p _ hp hq
  obtain ⟨out', _, _, _, _, hout', -⟩ := hgenerate pairSettings {} {} _ rfl rfl rfl rfl rfl hout
  exact ⟨hfile, hstem, hpaths, hnodup, loadDirectory_pair, ⟨p, hp, hpart.name⟩, out', hout'⟩

end IndexMapping.Package
