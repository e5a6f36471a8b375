import IndexMapping.Package.Load
import IndexMapping.Proofs.Files.Walk
import IndexMapping.Proofs.Package.Assemble

/-! Loading a descriptor file and loading its directory. Both read the files that the directory
lists, once each. The directory takes them by name; the file leaves out its own entry and is read
last, under the path that was asked for. -/

namespace IndexMapping.Package

open Files (FileTree Node)
open Files.Path (directory join fileName? stem?)

variable {t : FileTree} {extension path entry a b dir : String} {paths xs ys : List String}
  {f : SourceFile} {p : Package}
  {place : List String} {es : List (String × Node)}

/-! ### Reading -/

/-- The descriptor files directly in a directory, by name, as they have been read. -/
def readFiles (t : FileTree) (extension directory : String) : Except Error (List SourceFile) := do
  let paths ← descriptorFiles t extension directory
  paths.mapM (readDescriptor t)

/-- What is read depends on where a path leads, and not on how it is written. -/
theorem readDescriptor_of_resolve (h : t.resolve path = t.resolve entry)
    (hf : readDescriptor t entry = .ok f) : readDescriptor t path = .ok ⟨path, f.contents⟩ := by
  have htext : t.readText path = t.readText entry := by
    rw [FileTree.readText, FileTree.readText, FileTree.readBytes, FileTree.readBytes, h]
  rw [readDescriptor] at hf ⊢
  rw [htext]
  cases hr : t.readText entry with
  | error e => simp [hr] at hf
  | ok text =>
    cases hp : DescriptorFile.parse text with
    | error e => simp [hr, hp] at hf
    | ok contents =>
      simp only [hr, hp, Except.ok.injEq] at hf
      simp only [hp, ← hf]

theorem canonical?_of_isFile (h : t.isFile path) : ∃ place, t.canonical? path = some place := by
  obtain ⟨place, bytes, hresolve⟩ := FileTree.isFile_iff.1 h
  exact ⟨place, by rw [FileTree.canonical?, hresolve]⟩

/-- Paths to files lead to the same file if they lead to the same place. -/
theorem sameFile_iff (ha : t.isFile a) (hb : t.isFile b) :
    sameFile t a b ↔ t.canonical? a = t.canonical? b := by
  obtain ⟨place, hplace⟩ := canonical?_of_isFile ha
  obtain ⟨place', hplace'⟩ := canonical?_of_isFile hb
  simp [sameFile, hplace, hplace']

theorem descriptorFiles_file (h : t.isFile dir) : descriptorFiles t extension dir = .ok [] :=
  if_pos h

theorem descriptorFiles_directory (h : t.resolve dir = .ok (place, .directory es)) :
    descriptorFiles t extension dir =
      .ok ((((es.map (·.1)).mergeSort fun a b => a ≤ b).map (join dir)).filter fun a =>
        t.isFile a && (stem? extension a).isSome) := by
  have hfile : t.isFile dir = false := by
    rw [FileTree.isFile, h]
  rw [descriptorFiles, hfile, FileTree.list, h]
  rfl

theorem descriptorFiles_cases (hpaths : descriptorFiles t extension dir = .ok paths) :
    t.isFile dir ∧ paths = [] ∨ ∃ place es, t.resolve dir = .ok (place, .directory es) ∧
      paths = (((es.map (·.1)).mergeSort fun a b => a ≤ b).map (join dir)).filter fun a =>
        t.isFile a && (stem? extension a).isSome := by
  cases hfile : t.isFile dir with
  | true =>
    rw [descriptorFiles_file hfile, Except.ok.injEq] at hpaths
    exact .inl ⟨rfl, hpaths.symm⟩
  | false =>
    rw [descriptorFiles, hfile, FileTree.list] at hpaths
    cases hdir : t.resolve dir with
    | error f => simp [hdir] at hpaths
    | ok found =>
      obtain ⟨place, node⟩ := found
      cases node with
      | file bytes | link target => simp [hdir] at hpaths
      | directory es =>
        simp only [hdir, Bool.false_eq_true, if_false, Except.ok.injEq] at hpaths
        exact .inr ⟨place, es, rfl, hpaths.symm⟩

/-- The only descriptor file of a directory with one entry. -/
theorem descriptorFiles_singleton {name : String} {node : Node}
    (hdir : t.resolve dir = .ok (place, .directory [(name, node)]))
    (hfile : t.isFile (join dir name)) (hstem : (stem? extension (join dir name)).isSome) :
    descriptorFiles t extension dir = .ok [join dir name] := by
  rw [descriptorFiles_directory hdir, List.map_singleton, List.mergeSort_singleton,
    List.map_singleton, List.filter_singleton, hfile, hstem]
  rfl

theorem exists_mem_descriptorFiles {name : String}
    (hdir : t.resolve dir = .ok (place, .directory es)) (hname : name ∈ es.map (·.1))
    (hfile : t.isFile (join dir name)) (hstem : (stem? extension (join dir name)).isSome) :
    ∃ paths, descriptorFiles t extension dir = .ok paths ∧ join dir name ∈ paths := by
  refine ⟨_, descriptorFiles_directory hdir, ?_⟩
  rw [List.mem_filter, hfile, hstem]
  exact ⟨List.mem_map_of_mem (List.mem_mergeSort.2 hname), rfl⟩

theorem isFile_of_mem (hpaths : descriptorFiles t extension dir = .ok paths) :
    ∀ a ∈ paths, t.isFile a := by
  intro a ha
  rcases descriptorFiles_cases hpaths with ⟨-, rfl⟩ | ⟨place, es, -, rfl⟩
  · cases ha
  · rw [List.mem_filter, Bool.and_eq_true] at ha
    exact ha.2.1

/-- Of paths to different files, all others are left when one is taken away. -/
theorem filter_sameFile (hfiles : ∀ a ∈ xs ++ entry :: ys, t.isFile a) (hpath : t.isFile path)
    (hdistinct : ((xs ++ entry :: ys).map t.canonical?).Nodup)
    (h : t.canonical? entry = t.canonical? path) :
    (xs ++ entry :: ys).filter (fun a => !sameFile t a path) = xs ++ ys := by
  have hmiddle : (xs ++ entry :: ys).Perm (entry :: (xs ++ ys)) := List.perm_middle
  have hnodup := (hmiddle.map t.canonical?).nodup_iff.1 hdistinct
  obtain ⟨hentry, -⟩ := List.nodup_cons.1 hnodup
  have hothers : ∀ a ∈ xs ++ ys, !sameFile t a path := by
    intro a ha
    have hmem : a ∈ xs ++ entry :: ys := hmiddle.mem_iff.2 (List.mem_cons_of_mem _ ha)
    rw [Bool.not_eq_true', Bool.eq_false_iff, ne_eq, sameFile_iff (hfiles a hmem) hpath, ← h]
    exact fun heq => hentry (heq ▸ List.mem_map_of_mem ha)
  have hself : sameFile t entry path :=
    (sameFile_iff (hfiles entry (by simp)) hpath).2 h
  rw [List.filter_append, List.filter_cons_of_neg (by simpa using hself), ← List.filter_append,
    List.filter_eq_self.2 hothers]

/-- The path leads to one of the descriptor files of its directory and to none of the others. -/
structure Listed (t : FileTree) (extension path : String) (xs : List String) (entry : String)
    (ys : List String) : Prop where
  paths : descriptorFiles t extension (directory path) = .ok (xs ++ entry :: ys)
  resolve : t.resolve path = t.resolve entry
  others : (xs ++ entry :: ys).filter (fun a => !sameFile t a path) = xs ++ ys

/-! ### Loading -/

theorem loadDirectory_eq (t : FileTree) (extension dir : String) :
    loadDirectory t extension dir =
      readFiles t extension dir >>= assemble (directoryName t dir) List.flatten := by
  rw [loadDirectory, readFiles, bind_assoc]

theorem Listed.isDirectory (h : Listed t extension path xs entry ys) :
    t.isDirectory (directory path) := by
  rcases descriptorFiles_cases h.paths with ⟨-, hnil⟩ | ⟨place, es, hdir, -⟩
  · simp at hnil
  · exact FileTree.isDirectory_iff.2 ⟨place, es, hdir⟩

theorem Listed.readFiles_eq_ok_iff {files : List SourceFile}
    (h : Listed t extension path xs entry ys) :
    readFiles t extension (directory path) = .ok files ↔
      ∃ fs f gs, xs.mapM (readDescriptor t) = .ok fs ∧ readDescriptor t entry = .ok f ∧
        ys.mapM (readDescriptor t) = .ok gs ∧ files = fs ++ f :: gs := by
  rw [readFiles, h.paths, ok_bind, mapM_append_eq_ok]
  constructor
  · rintro ⟨fs, rest, hfs, hrest, rfl⟩
    obtain ⟨f, gs, hf, hgs, rfl⟩ := mapM_cons_eq_ok.1 hrest
    exact ⟨fs, f, gs, hfs, hf, hgs, rfl⟩
  · rintro ⟨fs, f, gs, hfs, hf, hgs, rfl⟩
    exact ⟨fs, f :: gs, hfs, mapM_cons_eq_ok.2 ⟨f, gs, hf, hgs, rfl⟩, rfl⟩

theorem Listed.loadFile_eq_ok_iff (h : Listed t extension path xs entry ys)
    (hstem : (stem? extension path).isSome) :
    loadFile t extension path = .ok p ↔
      ∃ fs f gs, xs.mapM (readDescriptor t) = .ok fs ∧ readDescriptor t entry = .ok f ∧
        ys.mapM (readDescriptor t) = .ok gs ∧
        assemble (directoryName t (directory path)) (·.getLastD [])
          (fs ++ gs ++ [⟨path, f.contents⟩]) = .ok p := by
  have hnone : (stem? extension path).isNone = false := by
    simpa using hstem
  simp only [loadFile, hnone, Bool.false_eq_true, if_false, h.paths, ok_bind, h.others,
    bind_eq_ok]
  constructor
  · rintro ⟨siblings, hsiblings, hrest⟩
    obtain ⟨fs, gs, hfs, hgs, rfl⟩ := mapM_append_eq_ok.1 hsiblings
    obtain ⟨f, hf, hassemble⟩ := hrest
    have hentry := readDescriptor_of_resolve h.resolve.symm hf
    have hpath := readDescriptor_of_resolve h.resolve hentry
    have heq : f = ⟨path, f.contents⟩ := Except.ok.inj (hf.symm.trans hpath)
    rw [heq] at hassemble
    exact ⟨fs, ⟨entry, f.contents⟩, gs, hfs, hentry, hgs, hassemble⟩
  · rintro ⟨fs, f, gs, hfs, hf, hgs, hassemble⟩
    refine ⟨fs ++ gs, mapM_append_eq_ok.2 ⟨fs, gs, hfs, hgs, rfl⟩, ?_⟩
    exact ⟨_, readDescriptor_of_resolve h.resolve hf, hassemble⟩

/-! ### The file among its siblings -/

theorem stem?_congr (h : fileName? a = fileName? b) :
    stem? extension a = stem? extension b := by
  rw [stem?, stem?, h]

theorem isFile_congr (h : t.resolve a = t.resolve b) : t.isFile a = t.isFile b := by
  rw [FileTree.isFile, FileTree.isFile, h]

/-- The directory of a descriptor file lists it. -/
theorem exists_listed (hfile : t.isFile path) (hstem : (stem? extension path).isSome)
    (hdistinct : ∀ paths, descriptorFiles t extension (directory path) = .ok paths →
      (paths.map t.canonical?).Nodup) : ∃ xs entry ys, Listed t extension path xs entry ys := by
  obtain ⟨place, es, name, hdir, hname, hpath, hjoin, hresolve⟩ := FileTree.exists_entry hfile
  obtain ⟨paths, hpaths, hentry⟩ := exists_mem_descriptorFiles hdir hname
    ((isFile_congr hresolve).trans hfile)
    ((congrArg Option.isSome (stem?_congr (hjoin.trans hpath.symm))).trans hstem)
  have hcanonical : t.canonical? (join (directory path) name) = t.canonical? path := by
    rw [FileTree.canonical?, FileTree.canonical?, hresolve]
  have hnodup := hdistinct paths hpaths
  have hfiles := isFile_of_mem hpaths
  obtain ⟨xs, ys, rfl⟩ := List.append_of_mem hentry
  exact ⟨xs, _, ys, hpaths, hresolve.symm, filter_sameFile hfiles hfile hnodup hcanonical⟩

end IndexMapping.Package
