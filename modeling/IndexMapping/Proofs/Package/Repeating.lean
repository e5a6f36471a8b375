import IndexMapping.Proofs.Files.Later
import IndexMapping.Proofs.Package.Blank
import IndexMapping.Proofs.Package.Siblings
import IndexMapping.Proofs.Package.Writing
import IndexMapping.Proofs.Text.Utf8

/-! Generating the document of an input once more. The tree has grown by new directories and by the
document. The document may be one of the files that are read for the package now, but it declares
nothing, so the package is the same and so is all that is generated from it, unless it has been
written over a descriptor file or the new directories complete the way to an older one. -/

namespace IndexMapping.Package

open Files (FileTree Node)
open Files.FileTree (Grows)
open Files.Path (directory join stem?)

variable {t t' : FileTree} {extension path dir input output text : String}
  {paths paths' : List String} {place : List String} {s : Settings} {o : GenerateOptions}
  {g : Generated} {p : Package} {files : List SourceFile}

/-! ### The tree afterwards -/

/-- `t'` has in addition a file that declares nothing, and new directories. -/
structure AddsBlank (t t' : FileTree) (output text : String) (place : List String) : Prop where
  grows : Grows [place] t t'
  resolve : t'.resolve output = .ok (place, .file (Text.Utf8.encode text))
  blank : DescriptorFile.parse text = .ok .blank

/-- The path leads to the added file. -/
def IsNew (t' : FileTree) (place : List String) (text path : String) : Prop :=
  t'.resolve path = .ok (place, .file (Text.Utf8.encode text))

/-- A path in a directory whose name is that of a descriptor file. -/
def IsCandidate (t : FileTree) (extension dir path : String) : Prop :=
  ∃ names, t.list dir = .ok names ∧ ∃ name ∈ names,
    path = join dir name ∧ (stem? extension path).isSome

/-- What the path leads to is not touched when a document is written. -/
structure Spared (t t' : FileTree) (output path : String) : Prop where
  /-- If the path led somewhere, that is not where the document is. -/
  there : t.isThere path → t.canonical? path ≠ t'.canonical? output
  /-- If it led nowhere, it does not lead to an older file, unless that is where the document is. -/
  missing : t.isThere path = false → ∀ place bytes, t'.canonical? path = some place →
    t.nodeAt? place = some (.file bytes) → t'.canonical? output = some place

/-! ### Descriptor files -/

/-- The names of a directory, as they are listed. -/
abbrev inOrder (names : List String) : List String := names.mergeSort fun a b => a ≤ b

theorem pairwise_inOrder (names : List String) : (inOrder names).Pairwise (· ≤ ·) :=
  Text.pairwise_mergeSort id names

/-- More names take their places among the others. -/
theorem padded_inOrder {names new : List String} (h : ∀ name ∈ new, name ∉ names) :
    Padded (· ∈ new) (inOrder names) (inOrder (names ++ new)) := by
  have hold : (names ++ new).filter (· ∈ names) = names := by
    rw [List.filter_append, List.filter_eq_self.2 (by simp), List.filter_eq_nil_iff.2 (by simpa),
      List.append_nil]
  have hperm : ((inOrder (names ++ new)).filter (· ∈ names)).Perm (inOrder names) := by
    have hall := (List.mergeSort_perm (names ++ new) fun a b => a ≤ b).filter (· ∈ names)
    rw [hold] at hall
    exact hall.trans (List.mergeSort_perm _ _).symm
  have heq := List.Perm.eq_of_pairwise (fun _ _ _ _ => String.le_antisymm)
    ((pairwise_inOrder _).filter _) (pairwise_inOrder _) hperm
  rw [← heq]
  refine .of_filter fun name hname hnew => ?_
  have hmem := List.mem_append.1 (List.mem_mergeSort.1 hname)
  exact hmem.resolve_left (by simpa using hnew)

theorem isCandidate_of_mem (hpaths : descriptorFiles t extension dir = .ok paths) :
    ∀ a ∈ paths, IsCandidate t extension dir a := by
  intro a ha
  rcases descriptorFiles_cases hpaths with ⟨-, rfl⟩ | ⟨above, es, hdir, rfl⟩
  · cases ha
  · obtain ⟨hmem, hfilter⟩ := List.mem_filter.1 ha
    obtain ⟨name, hname, rfl⟩ := List.mem_map.1 hmem
    exact ⟨_, by rw [FileTree.list, hdir], name, hname, rfl, (Bool.and_eq_true_iff.1 hfilter).2⟩

/-- A descriptor file is one of those in its directory. -/
theorem exists_candidate (hfile : t.isFile path) (hstem : (stem? extension path).isSome) :
    ∃ entry, IsCandidate t extension (directory path) entry ∧ t.resolve entry = t.resolve path := by
  obtain ⟨above, es, name, hdir, hname, hpath, hjoin, hresolve⟩ := FileTree.exists_entry hfile
  refine ⟨_, ⟨_, by rw [FileTree.list, hdir], name, List.mem_mergeSort.2 hname, rfl, ?_⟩, hresolve⟩
  rwa [stem?_congr (hjoin.trans hpath.symm)]

namespace AddsBlank

theorem agree (h : AddsBlank t t' output text place) (hthere : t.isThere path) :
    FileTree.Agree t t' path :=
  h.grows.agree hthere

theorem canonical (h : AddsBlank t t' output text place) : t'.canonical? output = some place := by
  rw [FileTree.canonical?, h.resolve]

theorem readDescriptor_eq (h : AddsBlank t t' output text place) (hthere : t.isThere path)
    (hne : t.canonical? path ≠ t'.canonical? output) :
    readDescriptor t' path = readDescriptor t path := by
  obtain ⟨place', node, hresolve⟩ := FileTree.isThere_iff.1 hthere
  have htext : t'.readText path = t.readText path := by
    refine h.grows.readText hresolve fun hmem => hne ?_
    rw [FileTree.canonical?, hresolve, h.canonical, List.mem_singleton.1 hmem]
  rw [readDescriptor, readDescriptor, htext]

/-- All other files were there before. -/
theorem place_eq {found : List String} {bytes : List UInt8} (h : AddsBlank t t' output text place)
    (hnode : t'.nodeAt? found = some (.file bytes))
    (hold : ∀ old, t.nodeAt? found = some (.file old) → found = place) : found = place := by
  cases hbefore : t.nodeAt? found with
  | none =>
    rcases h.grows.fresh found _ hnode hbefore with ⟨es, hes⟩ | hmem
    · cases hes
    · exact List.mem_singleton.1 hmem
  | some before =>
    -- only a file becomes a file
    obtain ⟨node, hafter, hbecomes⟩ := h.grows.becomes found before hbefore
    obtain rfl := Option.some.inj (hnode.symm.trans hafter)
    cases hbecomes <;> exact hold _ hbefore

/-- A spared path leads to a file if it did before, or it has come to lead to the new one. -/
theorem isFile_eq_or (h : AddsBlank t t' output text place) (hspared : Spared t t' output path) :
    t'.isFile path = t.isFile path ∨ t.isFile path = false ∧ IsNew t' place text path := by
  cases hthere : t.isThere path with
  | true => exact .inl (h.agree hthere).isFile
  | false =>
    have hnot : t.isFile path = false := by
      rw [Bool.eq_false_iff]
      intro hfile
      rw [FileTree.isThere_of_isFile hfile] at hthere
      cases hthere
    cases hfile : t'.isFile path with
    | false => exact .inl hnot.symm
    | true =>
      refine .inr ⟨hnot, ?_⟩
      obtain ⟨found, bytes, hresolve⟩ := FileTree.isFile_iff.1 hfile
      have hcanonical : t'.canonical? path = some found := by
        rw [FileTree.canonical?, hresolve]
      obtain rfl := h.place_eq (FileTree.nodeAt?_of_resolve hresolve) fun old hold =>
        Option.some.inj ((hspared.missing hthere found old hcanonical hold).symm.trans h.canonical)
      have hnode := (FileTree.nodeAt?_of_resolve hresolve).symm.trans
        (FileTree.nodeAt?_of_resolve h.resolve)
      rw [IsNew, hresolve, Option.some.inj hnode]

/-- The directory has its descriptor files, and maybe the new file, under any names. -/
theorem exists_descriptorFiles (h : AddsBlank t t' output text place)
    (hspared : ∀ path, IsCandidate t extension dir path → Spared t t' output path)
    (hpaths : descriptorFiles t extension dir = .ok paths) :
    ∃ paths', descriptorFiles t' extension dir = .ok paths' ∧
      Padded (IsNew t' place text) paths paths' := by
  rcases descriptorFiles_cases hpaths with ⟨hfile, rfl⟩ | ⟨above, es, hdir, rfl⟩
  · have hfile' := (h.agree (FileTree.isThere_of_isFile hfile)).isFile.trans hfile
    exact ⟨[], descriptorFiles_file hfile', .nil⟩
  obtain ⟨_, hdir', hbecomes⟩ := h.grows.resolve_becomes hdir
  cases hbecomes with
  | directory _ es' =>
    obtain ⟨_, new, hes', hnames, hnew⟩ := h.grows.names above es
      (FileTree.nodeAt?_eq_directory_iff.1 (FileTree.nodeAt?_of_resolve hdir))
    obtain rfl : es' = _ := Option.some.inj
      ((FileTree.nodeAt?_eq_directory_iff.1 (FileTree.nodeAt?_of_resolve hdir')).symm.trans hes')
    refine ⟨_, descriptorFiles_directory hdir', ?_⟩
    rw [hnames]
    have hlisted := (padded_inOrder fun name hname => (hnew name hname).2).map
      (Q := fun path => ∃ name ∈ new, path = join dir name) (join dir)
      fun name hname => ⟨name, hname, rfl⟩
    refine hlisted.filter ?_ ?_
    · -- a name that was there before
      rw [List.forall_mem_map]
      intro name hname
      have hlist : t.list dir = .ok (inOrder (es.map (·.1))) := by
        rw [FileTree.list, hdir]
      cases hstem : (stem? extension (join dir name)).isSome with
      | false => exact .inl (by simp only [Bool.and_false])
      | true =>
        have hcandidate : IsCandidate t extension dir (join dir name) :=
          ⟨_, hlist, name, hname, rfl, hstem⟩
        simpa only [Bool.and_true] using h.isFile_eq_or (hspared _ hcandidate)
    · -- a new name
      rintro _ ⟨name, hname, rfl⟩ hfilter
      obtain ⟨hcreatable, hmem⟩ := hnew name hname
      exact h.grows.resolve_new (FileTree.nodeAt?_of_resolve h.resolve) hdir hcreatable hmem
        (Bool.and_eq_true_iff.1 hfilter).1

/-- The same files are read, and maybe the new one. -/
theorem exists_mapM (h : AddsBlank t t' output text place) (hthere : ∀ a ∈ paths, t.isThere a)
    (hne : ∀ a ∈ paths, t.canonical? a ≠ t'.canonical? output)
    (hpaths : Padded (IsNew t' place text) paths paths')
    (hfiles : paths.mapM (readDescriptor t) = .ok files) :
    ∃ files', paths'.mapM (readDescriptor t') = .ok files' ∧ Padded Blank files files' := by
  refine hpaths.mapM (fun path hpath => ?_) (fun path hnew => ?_) hfiles
  · exact h.readDescriptor_eq (hthere path hpath) (hne path hpath)
  · refine ⟨⟨path, .blank⟩, ?_, rfl⟩
    have hresolve : t'.resolve path = .ok (place, .file (Text.Utf8.encode text)) := hnew
    simp only [readDescriptor, FileTree.readText, FileTree.readBytes, hresolve,
      Text.Utf8.decode?_encode, h.blank]

/-! ### Packages -/

theorem directoryName_eq (h : AddsBlank t t' output text place) (hthere : t.isThere dir) :
    directoryName t' dir = directoryName t dir := by
  rw [directoryName, directoryName, (h.agree hthere).canonical]

theorem loadDirectory_eq_ok (h : AddsBlank t t' output text place) (hdir : t.isDirectory dir)
    (hspared : ∀ path, IsCandidate t extension dir path → Spared t t' output path)
    (hp : loadDirectory t extension dir = .ok p) : loadDirectory t' extension dir = .ok p := by
  rw [loadDirectory] at hp ⊢
  obtain ⟨paths, hpaths, hp⟩ := bind_eq_ok.1 hp
  obtain ⟨files, hfiles, hp⟩ := bind_eq_ok.1 hp
  obtain ⟨paths', hpaths', hpadded⟩ := h.exists_descriptorFiles hspared hpaths
  have hthere : ∀ a ∈ paths, t.isThere a := fun a ha =>
    FileTree.isThere_of_isFile (isFile_of_mem hpaths a ha)
  obtain ⟨files', hfiles', hblank⟩ := h.exists_mapM hthere
    (fun a ha => (hspared a (isCandidate_of_mem hpaths a ha)).there (hthere a ha)) hpadded hfiles
  refine bind_eq_ok.2 ⟨paths', hpaths', bind_eq_ok.2 ⟨files', hfiles', ?_⟩⟩
  rw [h.directoryName_eq (FileTree.isThere_of_isDirectory hdir)]
  exact assemble_flatten_padded hblank hp

theorem loadFile_eq_ok (h : AddsBlank t t' output text place) (hfile : t.isFile path)
    (hspared : ∀ a, IsCandidate t extension (directory path) a → Spared t t' output a)
    (hp : loadFile t extension path = .ok p) : loadFile t' extension path = .ok p := by
  rw [loadFile] at hp ⊢
  split_ifs at hp ⊢ with hnone
  obtain ⟨paths, hpaths, hp⟩ := bind_eq_ok.1 hp
  obtain ⟨files, hfiles, hp⟩ := bind_eq_ok.1 hp
  obtain ⟨f, hf, hp⟩ := bind_eq_ok.1 hp
  obtain ⟨paths', hpaths', hpadded⟩ := h.exists_descriptorFiles hspared hpaths
  have hthere := FileTree.isThere_of_isFile hfile
  have hpaths_there : ∀ a ∈ paths, t.isThere a := fun a ha =>
    FileTree.isThere_of_isFile (isFile_of_mem hpaths a ha)
  have hsiblings : Padded (IsNew t' place text) (paths.filter fun a => !sameFile t a path)
      (paths'.filter fun a => !sameFile t' a path) := by
    refine hpadded.filter (fun a ha => .inl ?_) fun _ hnew _ => hnew
    rw [sameFile, sameFile, (h.agree hthere).canonical, (h.agree (hpaths_there a ha)).canonical]
  have hpaths_ne : ∀ a ∈ paths, t.canonical? a ≠ t'.canonical? output := fun a ha =>
    (hspared a (isCandidate_of_mem hpaths a ha)).there (hpaths_there a ha)
  obtain ⟨files', hfiles', hblank⟩ := h.exists_mapM
    (fun a ha => hpaths_there a (List.mem_of_mem_filter ha))
    (fun a ha => hpaths_ne a (List.mem_of_mem_filter ha)) hsiblings hfiles
  have hread : readDescriptor t' path = readDescriptor t path := by
    -- what is spared is the entry of the file in its directory
    have hstem : (stem? extension path).isSome := by
      simpa [Option.isSome_iff_ne_none] using hnone
    obtain ⟨entry, hentry, hresolve⟩ := exists_candidate hfile hstem
    have hne := (hspared entry hentry).there (by rwa [FileTree.isThere, hresolve])
    refine h.readDescriptor_eq hthere ?_
    rwa [FileTree.canonical?, hresolve] at hne
  obtain ⟨above, es, -, hdir, -⟩ := FileTree.exists_entry hfile
  refine bind_eq_ok.2 ⟨paths', hpaths', bind_eq_ok.2 ⟨files', hfiles', bind_eq_ok.2
    ⟨f, hread.trans hf, ?_⟩⟩⟩
  rw [h.directoryName_eq (FileTree.isThere_iff.2 ⟨above, _, hdir⟩)]
  exact assemble_last_padded hblank hp

end AddsBlank

/-- The directory whose descriptor files are read for an input. -/
def sourceDirectory (t : FileTree) (input : String) : String :=
  if t.isDirectory input then input else directory input

theorem packageInput_cases (hthere : t.isThere input) (package : Bool) :
    t.isDirectory (packageInput t package input) ∧
        packageInput t package input = sourceDirectory t input ∨
      t.isFile (packageInput t package input) ∧
        directory (packageInput t package input) = sourceDirectory t input := by
  obtain ⟨place, node, hresolve⟩ := FileTree.isThere_iff.1 hthere
  cases node with
  | link target => exact absurd rfl (FileTree.not_link_of_resolve hresolve target)
  | directory es =>
    have hdir := FileTree.isDirectory_iff.2 ⟨place, es, hresolve⟩
    rw [packageInput_directory hdir, sourceDirectory, if_pos hdir]
    exact .inl ⟨hdir, rfl⟩
  | file bytes =>
    have hfile := FileTree.isFile_iff.2 ⟨place, bytes, hresolve⟩
    have hnot := FileTree.isDirectory_of_isFile hfile
    cases package with
    | false => exact .inr ⟨hfile, by simp [packageInput, sourceDirectory, hnot]⟩
    | true =>
      obtain ⟨above, es, -, hdir, -⟩ := FileTree.exists_entry hfile
      refine .inl ⟨?_, by simp [packageInput, sourceDirectory, hnot]⟩
      simpa [packageInput, hnot] using FileTree.isDirectory_iff.2 ⟨above, es, hdir⟩

namespace AddsBlank

theorem load_eq_ok (h : AddsBlank t t' output text place) (hthere : t.isThere input)
    (hspared : ∀ path, IsCandidate t extension (sourceDirectory t input) path →
      Spared t t' output path)
    (hp : load t extension (packageInput t o.package input) = .ok p) :
    load t' extension (packageInput t o.package input) = .ok p := by
  rcases packageInput_cases hthere o.package with ⟨hdir, hsource⟩ | ⟨hfile, hsource⟩
  · have hdir_there := FileTree.isThere_of_isDirectory hdir
    rw [load_directory hdir] at hp
    rw [load_directory ((h.agree hdir_there).isDirectory.trans hdir)]
    exact h.loadDirectory_eq_ok hdir (hsource ▸ hspared) hp
  · have hfile_there := FileTree.isThere_of_isFile hfile
    rw [load_file hfile] at hp
    rw [load_file ((h.agree hfile_there).isFile.trans hfile)]
    exact h.loadFile_eq_ok hfile (hsource ▸ hspared) hp

theorem generate_eq_ok (h : AddsBlank t t' output text place) (hthere : t.isThere input)
    (hspared : ∀ path, IsCandidate t s.input.extension (sourceDirectory t input) path →
      Spared t t' output path)
    (hg : generate t s o input = .ok g) : generate t' s o input = .ok g := by
  obtain ⟨p, ids, hload, hselect, htext, houtput, htypeCount⟩ := generate_eq_ok_iff.1 hg
  have hinput : packageInput t' o.package input = packageInput t o.package input := by
    rw [packageInput, packageInput, (h.agree hthere).isDirectory]
  have hinput_there : t.isThere (packageInput t o.package input) := by
    rcases packageInput_cases hthere o.package with ⟨hdir, -⟩ | ⟨hfile, -⟩
    · exact FileTree.isThere_of_isDirectory hdir
    · exact FileTree.isThere_of_isFile hfile
  have hpath : outputPath t' s (packageInput t o.package input) p.name =
      outputPath t s (packageInput t o.package input) p.name := by
    rw [outputPath, outputPath, (h.agree hinput_there).isDirectory]
  refine generate_eq_ok_iff.2 ⟨p, ids, ?_, hselect, htext, ?_, htypeCount⟩
  · rw [hinput]
    exact h.load_eq_ok hthere hspared hload
  · rw [hinput, hpath]
    exact houtput

end AddsBlank

/-! ### Once more -/

/-- A document that goes to a directory that was there, under a path that led nowhere, spares all
paths. -/
theorem spared_of_isDirectory (h : writeDocument t output text = (.ok (), t'))
    (hdir : t.isDirectory (directory output)) (hmissing : t.isThere output = false)
    (path : String) : Spared t t' output path := by
  have hfree := isFree_of_missing h hdir hmissing
  obtain ⟨place, hgrows, hresolve⟩ := resolve_writeDocument h
  have houtput : t'.canonical? output = some place := by
    rw [FileTree.canonical?, hresolve]
  constructor
  · intro hthere heq
    obtain ⟨place', node, hold⟩ := FileTree.isThere_iff.1 hthere
    rw [houtput, FileTree.canonical?, hold] at heq
    cases heq
    have hnode := FileTree.nodeAt?_of_resolve hold
    rw [hfree place houtput] at hnode
    cases hnode
  · intro hnot place' bytes hcanonical hnode
    obtain ⟨node, hpath⟩ := FileTree.canonical?_eq_some_iff.1 hcanonical
    obtain ⟨bytes', hfile⟩ := hgrows.file hnode
    obtain rfl := Option.some.inj ((FileTree.nodeAt?_of_resolve hpath).symm.trans hfile)
    obtain ⟨_, hwrites⟩ := FileTree.exists_writes ((writeDocument_eq_ok_iff hdir).1 h)
    have hnew := hgrows.isThere_or (FileTree.nodeAt?_of_resolve hresolve) hwrites.noNewDirectory
      (FileTree.isFile_iff.2 ⟨place', bytes', hpath⟩)
    rcases hnew with hthere | hnew
    · rw [hthere] at hnot
      cases hnot
    · rw [hpath] at hnew
      cases hnew
      exact houtput

/-- A document that has been generated and written under a path that led nowhere may be generated
and written again: it has the same path, text and number of types, and no file changes. If its
directory was there, nothing else is asked. If directories had to be created, the path may lead to
what was there all the same, as `sub/../a` does once there is `sub`, and so may links; then the
document must not have been written over a descriptor file of the input, and no link that has the
name of one may have come to lead to an older file. -/
theorem generateToFile_again (t t' : FileTree) (s : Settings) (o : GenerateOptions)
    (input : String) (g : Generated) (hthere : t.isThere input)
    (h : generateToFile t s o input = (.ok g, t')) (hmissing : t.isThere g.output = false)
    (hcreated : t.isDirectory (directory g.output) = false →
      ∀ path, IsCandidate t s.input.extension (sourceDirectory t input) path →
        Spared t t' g.output path) :
    generateToFile t' s o input = (.ok g, t') := by
  obtain ⟨hg, hwrite⟩ := generateToFile_eq_ok_iff.1 h
  have hspared : ∀ path, IsCandidate t s.input.extension (sourceDirectory t input) path →
      Spared t t' g.output path := by
    cases hdir : t.isDirectory (directory g.output) with
    | true => exact fun path _ => spared_of_isDirectory hwrite hdir hmissing path
    | false => exact hcreated hdir
  obtain ⟨place, hgrows, hresolve⟩ := resolve_writeDocument hwrite
  obtain ⟨p, ids, -, -, htext, -⟩ := generate_eq_ok_iff.1 hg
  have hadds : AddsBlank t t' g.output g.text place := ⟨hgrows, hresolve, TypeSet.parse_blank htext⟩
  exact generateToFile_eq_ok_iff.2
    ⟨hadds.generate_eq_ok hthere hspared hg, writeDocument_again hwrite⟩

/-! ### A path that leads down and up again -/

variable {ending : FileTree.Ending} {name : String} {es inner : List (String × Node)}
  {rest : List String}

/-- A directory with some entries. -/
def inDirectory (es : List (String × Node)) : FileTree where
  root := [("d", .directory es)]
  work := []
  workText := "/"

theorem resolve_d (es : List (String × Node)) :
    (inDirectory es).resolve "d" = .ok (["d"], .directory es) :=
  FileTree.resolve_plain ⟨by decide, by decide, by decide⟩ rfl (by decide) rfl (by simp)

theorem isDirectory_d (es : List (String × Node)) : (inDirectory es).isDirectory "d" :=
  FileTree.isDirectory_iff.2 ⟨_, _, resolve_d es⟩

theorem passable_up : FileTree.Passable "d/sub/.." := ⟨by decide, by decide, by decide⟩

theorem segments_up : Files.Path.segments "d/sub/.." = ["d", "sub", ".."] := by decide

theorem passable_document : FileTree.Passable "d/sub/../a.types.json" :=
  ⟨by decide, by decide, by decide⟩

theorem segments_document :
    Files.Path.segments "d/sub/../a.types.json" = ["d", "sub", "..", "a.types.json"] := by decide

theorem entriesAt?_d : Files.entriesAt? (inDirectory es).root ["d"] = some es := rfl

theorem nodeAt?_d : (inDirectory es).nodeAt? (["d"] ++ [name]) = Files.child? name es :=
  FileTree.nodeAt?_concat

/-- The way begins in the directory. -/
theorem locate_d (hpath : FileTree.Passable path)
    (hsegments : Files.Path.segments path = "d" :: rest) (hrest : rest.all (· = "") = false) :
    (inDirectory es).locate ending path =
      (inDirectory es).walk ending FileTree.linkLimit ["d"] rest := by
  have hdown : (inDirectory es).enter FileTree.linkLimit [] "d" =
      .ok ⟨FileTree.linkLimit, ["d"], []⟩ := rfl
  have hwork : (inDirectory es).work = [] := rfl
  rw [FileTree.locate_of_passable hpath, hsegments, hwork, ite_self,
    FileTree.walk_cons_of_enter (.inr hrest) hdown, List.nil_append]

/-- Nothing is found below a directory that is not there. -/
theorem locate_detour_none (hpath : FileTree.Passable path)
    (hsegments : Files.Path.segments path = "d" :: "sub" :: ".." :: rest)
    (h : Files.child? "sub" es = none) :
    (inDirectory es).locate ending path = .error .notFound := by
  have hsub : (inDirectory es).enter FileTree.linkLimit ["d"] "sub" = .error .notFound :=
    FileTree.enter_none (by decide) (nodeAt?_d.trans h)
  rw [locate_d hpath hsegments (by simp),
    FileTree.walk_of_enter_error (.inr (by simp)) hsub (by simp)]

theorem locate_detour_some (hpath : FileTree.Passable path)
    (hsegments : Files.Path.segments path = "d" :: "sub" :: ".." :: rest)
    (h : Files.child? "sub" es = some (.directory inner)) :
    (inDirectory es).locate ending path =
      (inDirectory es).walk ending FileTree.linkLimit ["d"] rest := by
  have hsub : (inDirectory es).enter FileTree.linkLimit ["d"] "sub" =
      .ok ⟨FileTree.linkLimit, ["d", "sub"], []⟩ :=
    FileTree.enter_directory (by decide) (nodeAt?_d.trans h)
  rw [locate_d hpath hsegments (by simp), FileTree.walk_cons_of_enter (.inr (by simp)) hsub,
    List.nil_append, FileTree.walk_up]
  rfl

/-- The entries of the directory once it has `sub` in it and the document. -/
def withSub (es : List (String × Node)) : List (String × Node) :=
  Files.setEntry "sub" (.directory []) es

def withDocument (es : List (String × Node)) (text : String) : List (String × Node) :=
  Files.setEntry "a.types.json" (.file (Text.Utf8.encode text)) (withSub es)

theorem child?_withSub : Files.child? "sub" (withSub es) = some (.directory []) := by
  rw [withSub, Files.child?_setEntry, if_pos rfl]

theorem child?_withDocument {text : String} :
    Files.child? "a.types.json" (withDocument es text) = some (.file (Text.Utf8.encode text)) := by
  rw [withDocument, Files.child?_setEntry, if_pos rfl]

theorem createDirectories_detour (h : Files.child? "sub" es = none) :
    (inDirectory es).createDirectories "d/sub/.." = .ok (inDirectory (withSub es)) := by
  have hchain : FileTree.chain "d/sub/..".length "d/sub/.." = ["d/sub/..", "d/sub", "d", ""] := by
    decide
  have hback (ending : FileTree.Ending) : (inDirectory (withSub es)).locate ending "d/sub/.." =
      .ok (.found ["d"] (.directory (withSub es))) := by
    rw [locate_detour_some passable_up segments_up child?_withSub, FileTree.walk]
    rfl
  have hfirst : (inDirectory es).createDirectory "d/sub/.." = .error .notFound := by
    rw [FileTree.createDirectory, locate_detour_none passable_up segments_up h]
  have hsub : (inDirectory es).createDirectory "d/sub" = .ok (inDirectory (withSub es)) := by
    have hpath : FileTree.Passable "d/sub" := ⟨by decide, by decide, by decide⟩
    have hsegments : Files.Path.segments "d/sub" = ["d", "sub"] := by decide
    rw [FileTree.createDirectory, locate_d hpath hsegments (by simp),
      FileTree.walk_absent (by decide) entriesAt?_d h]
    rfl
  have hthere : (inDirectory (withSub es)).isDirectory "d/sub/.." :=
    FileTree.isDirectory_iff.2 ⟨_, _, FileTree.resolve_eq_ok_iff.2 (hback _)⟩
  have hlast : (inDirectory (withSub es)).createDirectory "d/sub/.." = .error .alreadyExists := by
    rw [FileTree.createDirectory, hback]
  simp [FileTree.createDirectories, hchain, FileTree.createChain, hfirst, hsub, hlast, hthere]

theorem writeDocument_detour (text : String) (h : Files.child? "sub" es = none)
    (hfile : ∀ node, Files.child? "a.types.json" es = some node → ∃ bytes, node = .file bytes) :
    writeDocument (inDirectory es) "d/sub/../a.types.json" text =
      (.ok (), inDirectory (withDocument es text)) := by
  have hparent : Files.Path.parent? "d/sub/../a.types.json" = some "d/sub/.." := by decide
  have hplain : FileTree.Plain "a.types.json" := by decide
  have hother : Files.child? "a.types.json" (withSub es) = Files.child? "a.types.json" es := by
    rw [withSub, Files.child?_setEntry, if_neg (by decide)]
  have hwrite : (inDirectory (withSub es)).write "d/sub/../a.types.json" (Text.Utf8.encode text) =
      .ok (inDirectory (withDocument es text)) := by
    rw [FileTree.write, locate_detour_some passable_document segments_document child?_withSub]
    cases hchild : Files.child? "a.types.json" es with
    | none =>
      rw [FileTree.walk_absent hplain entriesAt?_d (hother.trans hchild)]
      rfl
    | some node =>
      obtain ⟨bytes, rfl⟩ := hfile node hchild
      rw [FileTree.walk_entry hplain (nodeAt?_d.trans (hother.trans hchild)) (by simp)]
      rfl
  simp only [writeDocument, hparent, createDirectories_detour h, hwrite]

/-- One type, in a package with a name that leads down and up again. -/
def detourText : String :=
  "\x7b\"package\":\"sub/../a\",\"types\":[\x7b\"name\":\"A\"\x7d]\x7d"

def detourFile : Node := .file (Text.Utf8.encode detourText)

/-- Documents get the names of descriptor files. -/
def detourSettings : Settings where
  compiler := { format := .compact }
  input := { allTypes := true }
  output := { fileSuffix := ".types.json" }

def detourPackage : Package :=
  ⟨"sub/../a", ⟨[⟨"A", some "sub/../a", false, []⟩]⟩, [⟨"sub/../a.A"⟩]⟩

def detourDocument : String :=
  "\x7b\"mappings\":\x7b\"a\":\x7b\"properties\":\x7b\x7d\x7d\x7d\x7d"

/-- What is generated if that is the only descriptor file. -/
def detourGenerated : Generated := ⟨"d/sub/../a.types.json", detourDocument, 1⟩

theorem load_detour (hpaths : descriptorFiles (inDirectory es) "types.json" "d" = .ok [path])
    (hresolve : (inDirectory es).resolve path = .ok (["d", name], detourFile)) :
    load (inDirectory es) "types.json" "d" = .ok detourPackage := by
  have hread : readDescriptor (inDirectory es) path =
      .ok ⟨path, some "sub/../a", [⟨"A", none, false, []⟩]⟩ := by
    simp only [readDescriptor, FileTree.readText, FileTree.readBytes, hresolve, detourFile,
      Text.Utf8.decode?_encode]
    rfl
  rw [load_directory (isDirectory_d _), loadDirectory_eq, readFiles, hpaths, ok_bind,
    List.mapM_cons, hread]
  rfl

theorem run_detour :
    (detourPackage.types.run detourSettings.compiler
      (detourPackage.roots.foldl Worklist.request .empty)).1 = .ok detourDocument := by
  have hcompile : detourPackage.types.compile "es-mapping" ⟨"sub/../a.A"⟩ = .ok [] :=
    TypeSet.expand_eq_ok_iff.2 ⟨List.not_mem_nil, _, rfl, FieldType.properties_nil⟩
  have hentry : detourPackage.types.mapping "es-mapping" [] ⟨"sub/../a.A"⟩ =
      .ok (Identifier.snake "A", []) :=
    TypeSet.mapping_eq_ok_iff.2 ⟨⟨rfl, hcompile⟩, List.not_mem_nil⟩
  have hwaiting : detourPackage.roots.foldl Worklist.request .empty =
      ⟨[], [⟨"sub/../a.A"⟩]⟩ := by decide
  have hkey : detourSettings.compiler.tagKey = "es-mapping" := rfl
  simp only [TypeSet.run, TypeSet.build, hwaiting, hkey, TypeSet.drain, hentry]
  rfl

theorem generate_detour (hpaths : descriptorFiles (inDirectory es) "types.json" "d" = .ok [path])
    (hresolve : (inDirectory es).resolve path = .ok (["d", name], detourFile)) :
    generate (inDirectory es) detourSettings {} "d" = .ok detourGenerated := by
  have hinput := packageInput_directory (isDirectory_d es) false
  refine generate_eq_ok_iff.2
    ⟨detourPackage, detourPackage.roots, ?_, select_all _, run_detour, .inr ⟨rfl, ?_⟩, rfl⟩
  · exact hinput ▸ load_detour hpaths hresolve
  · rw [hinput, outputPath, if_pos (isDirectory_d _)]
    rfl

/-- The run that writes the document. -/
theorem generateToFile_detour (h : Files.child? "sub" es = none)
    (hfile : ∀ node, Files.child? "a.types.json" es = some node → ∃ bytes, node = .file bytes)
    (hpaths : descriptorFiles (inDirectory es) "types.json" "d" = .ok [path])
    (hresolve : (inDirectory es).resolve path = .ok (["d", name], detourFile)) :
    generateToFile (inDirectory es) detourSettings {} "d" =
        (.ok detourGenerated, inDirectory (withDocument es detourDocument)) ∧
      (inDirectory es).isThere detourGenerated.output = false := by
  refine ⟨generateToFile_eq_ok_iff.2
    ⟨generate_detour hpaths hresolve, writeDocument_detour _ h hfile⟩, ?_⟩
  rw [FileTree.isThere, FileTree.resolve, detourGenerated,
    locate_detour_none passable_document segments_document h]
  rfl

theorem resolve_document (es : List (String × Node)) (text : String) :
    (inDirectory (withDocument es text)).resolve detourGenerated.output =
      .ok (["d", "a.types.json"], .file (Text.Utf8.encode text)) := by
  have hsub : Files.child? "sub" (withDocument es text) = some (.directory []) := by
    rw [withDocument, Files.child?_setEntry, if_neg (by decide), child?_withSub]
  rw [FileTree.resolve_eq_ok_iff, detourGenerated,
    locate_detour_some passable_document segments_document hsub]
  exact FileTree.walk_entry (by decide) (nodeAt?_d.trans child?_withDocument) (by simp)

/-- The document has a shorter path, too. -/
theorem resolve_a (es : List (String × Node)) (text : String) :
    (inDirectory (withDocument es text)).resolve "d/a.types.json" =
      .ok (["d", "a.types.json"], .file (Text.Utf8.encode text)) :=
  FileTree.resolve_plain ⟨by decide, by decide, by decide⟩ rfl (by decide)
    (nodeAt?_d.trans child?_withDocument) (by simp)

/-- The document goes beside the descriptor file. -/
def beside : List (String × Node) := [("b.types.json", detourFile)]

theorem resolve_beside :
    (inDirectory beside).resolve "d/b.types.json" = .ok (["d", "b.types.json"], detourFile) :=
  FileTree.resolve_plain ⟨by decide, by decide, by decide⟩ rfl (by decide) rfl
    (by simp [detourFile])

theorem spared_beside (text : String) (h : IsCandidate (inDirectory beside) "types.json" "d" path) :
    Spared (inDirectory beside) (inDirectory (withDocument beside text)) detourGenerated.output
      path := by
  obtain ⟨names, hnames, name, hname, rfl, -⟩ := h
  rw [FileTree.list, resolve_d] at hnames
  cases hnames
  obtain rfl : name = "b.types.json" := by simpa [beside] using List.mem_mergeSort.1 hname
  have hjoined : join "d" "b.types.json" = "d/b.types.json" := by decide
  rw [hjoined]
  constructor
  · rw [FileTree.canonical?, FileTree.canonical?, resolve_beside, resolve_document]
    simp
  · rw [FileTree.isThere_iff.2 ⟨_, _, resolve_beside⟩]
    simp

theorem generateToFile_again_beside :
    ∃ t', (inDirectory beside).isThere "d" ∧
      generateToFile (inDirectory beside) detourSettings {} "d" = (.ok detourGenerated, t') ∧
      (inDirectory beside).isThere detourGenerated.output = false ∧
      (inDirectory beside).isDirectory (directory detourGenerated.output) = false ∧
      (∀ path, IsCandidate (inDirectory beside) "types.json" "d" path →
        Spared (inDirectory beside) t' detourGenerated.output path) ∧
      t'.isFile "d/a.types.json" ∧
      generateToFile t' detourSettings {} "d" = (.ok detourGenerated, t') := by
  have hjoined : join "d" "b.types.json" = "d/b.types.json" := by decide
  have hpaths : descriptorFiles (inDirectory beside) "types.json" "d" = .ok ["d/b.types.json"] :=
    hjoined ▸ descriptorFiles_singleton (resolve_d _)
      (hjoined ▸ FileTree.isFile_iff.2 ⟨_, _, resolve_beside⟩) (by decide)
  obtain ⟨hrun, hmissing⟩ :=
    generateToFile_detour rfl (by simp [beside, Files.child?]) hpaths resolve_beside
  have hthere : (inDirectory beside).isThere "d" :=
    FileTree.isThere_of_isDirectory (isDirectory_d _)
  have hdir : (inDirectory beside).isDirectory (directory detourGenerated.output) = false := by
    have hdirectory : directory detourGenerated.output = "d/sub/.." := by decide
    rw [hdirectory, FileTree.isDirectory, FileTree.resolve,
      locate_detour_none passable_up segments_up rfl]
  have hsource : sourceDirectory (inDirectory beside) "d" = "d" := if_pos (isDirectory_d _)
  exact ⟨_, hthere, hrun, hmissing, hdir, fun _ => spared_beside _,
    FileTree.isFile_iff.2 ⟨_, _, resolve_a _ _⟩,
    generateToFile_again _ _ detourSettings {} "d" _ hthere hrun hmissing
      fun _ _ hcandidate => spared_beside _ (hsource ▸ hcandidate)⟩

/-- The document is written over the descriptor file. -/
def instead : List (String × Node) := [("a.types.json", detourFile)]

def emptyDocument : String := "\x7b\"mappings\":\x7b\x7d\x7d"

theorem locate_instead (ending : FileTree.Ending) :
    (inDirectory (withDocument instead detourDocument)).locate ending "d/d.types.json" =
      .ok (.absent ["d"] "d.types.json") := by
  have hsegments : Files.Path.segments "d/d.types.json" = ["d", "d.types.json"] := by decide
  rw [locate_d ⟨by decide, by decide, by decide⟩ hsegments (by simp)]
  exact FileTree.walk_absent (by decide) entriesAt?_d rfl

theorem descriptorFiles_instead :
    descriptorFiles (inDirectory (withDocument instead detourDocument)) "types.json" "d" =
      .ok ["d/a.types.json"] := by
  have hsub : (inDirectory (withDocument instead detourDocument)).resolve "d/sub" =
      .ok (["d", "sub"], .directory []) :=
    FileTree.resolve_plain ⟨by decide, by decide, by decide⟩ rfl (by decide) rfl (by simp)
  have hnames : (withDocument instead detourDocument).map (·.1) = ["a.types.json", "sub"] := rfl
  have hsorted : ["a.types.json", "sub"].mergeSort (fun a b => a ≤ b) = ["a.types.json", "sub"] :=
    List.mergeSort_of_pairwise (by decide)
  have hjoined : ["a.types.json", "sub"].map (join "d") = ["d/a.types.json", "d/sub"] := by decide
  rw [descriptorFiles_directory (resolve_d _), hnames, hsorted, hjoined]
  simp only [List.filter, FileTree.isFile, resolve_a, hsub]
  rfl

/-- The document is the only descriptor file now. -/
theorem load_instead :
    load (inDirectory (withDocument instead detourDocument)) "types.json" "d" =
      .ok ⟨"d", .empty, []⟩ := by
  have hread : readDescriptor (inDirectory (withDocument instead detourDocument)) "d/a.types.json" =
      .ok ⟨"d/a.types.json", .blank⟩ := by
    simp only [readDescriptor, FileTree.readText, FileTree.readBytes, resolve_a,
      Text.Utf8.decode?_encode]
    rfl
  have hname : directoryName (inDirectory (withDocument instead detourDocument)) "d" = "d" := by
    simp only [directoryName, FileTree.canonical?, resolve_d]
    rfl
  rw [load_directory (isDirectory_d _), loadDirectory_eq, readFiles, descriptorFiles_instead,
    ok_bind, List.mapM_cons, hread, hname]
  rfl

theorem generate_instead :
    generate (inDirectory (withDocument instead detourDocument)) detourSettings {} "d" =
      .ok ⟨"d/d.types.json", emptyDocument, 0⟩ := by
  have hinput := packageInput_directory
    (isDirectory_d (withDocument instead detourDocument)) false
  refine generate_eq_ok_iff.2 ⟨⟨"d", .empty, []⟩, [], ?_, select_all _, rfl, .inr ⟨rfl, ?_⟩, rfl⟩
  · exact hinput ▸ load_instead
  · rw [hinput, outputPath, if_pos (isDirectory_d _)]
    rfl

/-- The first run, in which the only descriptor file is found under its path. -/
theorem generateToFile_instead : generateToFile (inDirectory instead) detourSettings {} "d" =
      (.ok detourGenerated, inDirectory (withDocument instead detourDocument)) ∧
    (inDirectory instead).isThere detourGenerated.output = false := by
  have hresolve : (inDirectory instead).resolve "d/a.types.json" =
      .ok (["d", "a.types.json"], detourFile) :=
    FileTree.resolve_plain ⟨by decide, by decide, by decide⟩ rfl (by decide) rfl
      (by simp [detourFile])
  have hjoined : join "d" "a.types.json" = "d/a.types.json" := by decide
  have hpaths : descriptorFiles (inDirectory instead) "types.json" "d" = .ok ["d/a.types.json"] :=
    hjoined ▸ descriptorFiles_singleton (resolve_d _)
      (hjoined ▸ FileTree.isFile_iff.2 ⟨_, _, hresolve⟩) (by decide)
  have hold : ∀ node, Files.child? "a.types.json" instead = some node →
      ∃ bytes, node = .file bytes := fun node hnode => ⟨_, (Option.some.inj hnode).symm⟩
  exact generateToFile_detour rfl hold hpaths hresolve

/-- When it has been written over the descriptor file, the second run gives another document, under
another path. -/
theorem generateToFile_again_instead :
    ∃ t', (inDirectory instead).isThere "d" ∧
      generateToFile (inDirectory instead) detourSettings {} "d" = (.ok detourGenerated, t') ∧
      (inDirectory instead).isThere detourGenerated.output = false ∧
      ∃ g t'', generateToFile t' detourSettings {} "d" = (.ok g, t'') ∧
        g.output ≠ detourGenerated.output ∧ g.text ≠ detourGenerated.text ∧
        g.typeCount ≠ detourGenerated.typeCount ∧ t'.isFile g.output = false ∧
        t''.isFile g.output := by
  obtain ⟨hrun, hmissing⟩ := generateToFile_instead
  have hnew : (inDirectory (withDocument instead detourDocument)).isFile "d/d.types.json" =
      false := by
    rw [FileTree.isFile, FileTree.resolve, locate_instead]
  have hdirectory : directory "d/d.types.json" = "d" := by decide
  obtain ⟨final, hfinal⟩ : ∃ final, (inDirectory (withDocument instead detourDocument)).write
      "d/d.types.json" (Text.Utf8.encode emptyDocument) = .ok final :=
    ⟨_, by rw [FileTree.write, locate_instead]⟩
  have hwrite := (writeDocument_eq_ok_iff (hdirectory ▸ isDirectory_d _)).2 hfinal
  obtain ⟨place, -, hwritten⟩ := resolve_writeDocument hwrite
  exact ⟨_, FileTree.isThere_of_isDirectory (isDirectory_d _), hrun, hmissing, _, final,
    generateToFile_eq_ok_iff.2 ⟨generate_instead, hwrite⟩, by decide, by decide, by decide,
    hnew, FileTree.isFile_iff.2 ⟨_, _, hwritten⟩⟩

/-- Beside the descriptor file there is a link to a file, on a way that is not there. -/
def linked : List (String × Node) :=
  [("b.types.json", .link "sub/../note"), ("c.types.json", detourFile), ("note", .file [])]

theorem walk_linked (h : Files.child? "b.types.json" es = some (.link "sub/../note")) :
    (inDirectory es).locate .followed "d/b.types.json" =
      (inDirectory es).walk .followed 39 ["d"] ["sub", "..", "note"] := by
  have hsegments : Files.Path.segments "d/b.types.json" = ["d", "b.types.json"] := by decide
  have htarget : Files.Path.segments "sub/../note" = ["sub", "..", "note"] := by decide
  have hfollow : (inDirectory es).enter FileTree.linkLimit ["d"] "b.types.json" =
      .ok ⟨39, ["d"], ["sub", "..", "note"]⟩ := by
    rw [FileTree.enter, if_neg (by decide), if_neg (by decide), if_neg (by decide),
      FileTree.nodeAt?_concat.symm.trans (nodeAt?_d.trans h), ← htarget]
    rfl
  rw [locate_d ⟨by decide, by decide, by decide⟩ hsegments (by simp),
    FileTree.walk_of_enter hfollow]
  rfl

theorem isFile_linked : (inDirectory linked).isFile "d/b.types.json" = false := by
  have hmissing : (inDirectory linked).enter 39 ["d"] "sub" = .error .notFound := rfl
  rw [FileTree.isFile, FileTree.resolve, walk_linked rfl,
    FileTree.walk_of_enter_error (.inl rfl) hmissing (by decide)]

/-- The new directory completes the way. -/
theorem resolve_linked : (inDirectory (withDocument linked detourDocument)).resolve
    "d/b.types.json" = .ok (["d", "note"], .file []) := by
  have hsub : (inDirectory (withDocument linked detourDocument)).enter 39 ["d"] "sub" =
      .ok ⟨39, ["d", "sub"], []⟩ := rfl
  rw [FileTree.resolve_eq_ok_iff, walk_linked rfl, FileTree.walk_of_enter hsub, List.nil_append,
    FileTree.walk_up]
  exact FileTree.walk_entry (by decide) rfl (by simp)

theorem generateToFile_linked : generateToFile (inDirectory linked) detourSettings {} "d" =
      (.ok detourGenerated, inDirectory (withDocument linked detourDocument)) ∧
    (inDirectory linked).isThere detourGenerated.output = false := by
  have hresolve : (inDirectory linked).resolve "d/c.types.json" =
      .ok (["d", "c.types.json"], detourFile) :=
    FileTree.resolve_plain ⟨by decide, by decide, by decide⟩ rfl (by decide) rfl
      (by simp [detourFile])
  have hpaths : descriptorFiles (inDirectory linked) "types.json" "d" = .ok ["d/c.types.json"] := by
    have hsorted : (linked.map (·.1)).mergeSort (fun a b => a ≤ b) =
        ["b.types.json", "c.types.json", "note"] := List.mergeSort_of_pairwise (by decide)
    have hjoined : ["b.types.json", "c.types.json", "note"].map (join "d") =
        ["d/b.types.json", "d/c.types.json", "d/note"] := by decide
    have hc : (inDirectory linked).isFile "d/c.types.json" = true :=
      FileTree.isFile_iff.2 ⟨_, _, hresolve⟩
    have hnote : (stem? "types.json" "d/note").isSome = false := by decide
    rw [descriptorFiles_directory (resolve_d _), hsorted, hjoined]
    simp only [List.filter, isFile_linked, hc, hnote, Bool.and_false]
    rfl
  exact generateToFile_detour rfl (by simp [linked, Files.child?]) hpaths hresolve

theorem readDescriptor_linked (f : SourceFile) :
    readDescriptor (inDirectory (withDocument linked detourDocument)) "d/b.types.json" ≠ .ok f := by
  have htext : (inDirectory (withDocument linked detourDocument)).readText "d/b.types.json" =
      .ok "" := by
    simp only [FileTree.readText, FileTree.readBytes, resolve_linked]
    rfl
  obtain ⟨e, he⟩ : ∃ e, DescriptorFile.parse "" = .error e := ⟨_, rfl⟩
  simp [readDescriptor, htext, he]

/-- When a link has come to lead to an older file, the second run may fail. -/
theorem generateToFile_again_linked :
    ∃ t', (inDirectory linked).isThere "d" ∧
      generateToFile (inDirectory linked) detourSettings {} "d" = (.ok detourGenerated, t') ∧
      (inDirectory linked).isThere detourGenerated.output = false ∧
      ∀ g t'', generateToFile t' detourSettings {} "d" ≠ (.ok g, t'') := by
  obtain ⟨hrun, hmissing⟩ := generateToFile_linked
  refine ⟨_, FileTree.isThere_of_isDirectory (isDirectory_d _), hrun, hmissing,
    fun g t'' hagain => ?_⟩
  obtain ⟨p, ids, hload, -⟩ := generate_eq_ok_iff.1 (generateToFile_eq_ok_iff.1 hagain).1
  have hname : "b.types.json" ∈ (withDocument linked detourDocument).map (·.1) := by decide
  have hjoined : join "d" "b.types.json" = "d/b.types.json" := by decide
  obtain ⟨paths, hpaths, hlink⟩ : ∃ paths, descriptorFiles (inDirectory (withDocument linked
      detourDocument)) detourSettings.input.extension "d" = .ok paths ∧
        join "d" "b.types.json" ∈ paths :=
    exists_mem_descriptorFiles (resolve_d _) hname
      (hjoined ▸ FileTree.isFile_iff.2 ⟨_, _, resolve_linked⟩) (by decide)
  rw [packageInput_directory (isDirectory_d _), load_directory (isDirectory_d _), loadDirectory_eq,
    readFiles, hpaths, ok_bind] at hload
  obtain ⟨files, hfiles, -⟩ := bind_eq_ok.1 hload
  obtain ⟨xs, ys, rfl⟩ := List.append_of_mem hlink
  obtain ⟨_, rest, -, hrest, -⟩ := mapM_append_eq_ok.1 hfiles
  obtain ⟨f, _, hf, -⟩ := mapM_cons_eq_ok.1 hrest
  exact readDescriptor_linked f (hjoined ▸ hf)

end IndexMapping.Package
