import IndexMapping.Package.Generate
import IndexMapping.Proofs.Files.Growth

/-! Writing the document of an input. The directories above it are created, and then it is where
its path leads. If its directory was there and the path led nowhere, its place was free. -/

namespace IndexMapping.Package

open Files (FileTree)
open Files.FileTree (Grows Writes)
open Files.Path (directory)

variable {t t' : FileTree} {path input text : String} {s : Settings} {o : GenerateOptions}
  {g : Generated}

theorem generateToFile_eq_ok_iff : generateToFile t s o input = (.ok g, t') ↔
    generate t s o input = .ok g ∧ writeDocument t g.output g.text = (.ok (), t') := by
  unfold generateToFile
  cases generate t s o input with
  | error e => simp
  | ok out =>
    rw [Except.ok.injEq]
    constructor
    · intro h
      cases hwrite : writeDocument t out.output out.text with
      | mk outcome made =>
        cases outcome with
        | error f => simp [hwrite] at h
        | ok u =>
          obtain ⟨rfl, rfl⟩ : out = g ∧ made = t' := by simpa [hwrite] using h
          exact ⟨rfl, hwrite⟩
    · rintro ⟨rfl, hwrite⟩
      simp only [hwrite]

/-! ### Where a document goes -/

/-- First the directories are created, and then the file is written. -/
theorem exists_writes (h : writeDocument t path text = (.ok (), t')) :
    ∃ made place, Grows [] t made ∧ Writes made path (Text.Utf8.encode text) place t' := by
  simp only [writeDocument] at h
  split at h
  · cases h
  next made hmade =>
    have hgrows : Grows [] t made := by
      split at hmade
      · exact FileTree.grows_createDirectories hmade
      · cases hmade
        exact .refl t
    split at h
    · cases h
    next hwrite =>
      cases h
      obtain ⟨place, hwrites⟩ := FileTree.exists_writes hwrite
      exact ⟨made, place, hgrows, hwrites⟩

/-- A document is where its path leads. New directories are all else that is new, and no other file
has changed. -/
theorem resolve_writeDocument (h : writeDocument t path text = (.ok (), t')) :
    ∃ place, Grows [place] t t' ∧ t'.resolve path = .ok (place, .file (Text.Utf8.encode text)) := by
  obtain ⟨made, place, hgrows, hwrites⟩ := exists_writes h
  exact ⟨place, hgrows.trans hwrites.grows, hwrites.resolve⟩

/-! ### A directory that is there -/

/-- No directories are created for the document. -/
theorem writeDocument_eq_ok_iff (h : t.isDirectory (directory path)) :
    writeDocument t path text = (.ok (), t') ↔
      t.write path (Text.Utf8.encode text) = .ok t' := by
  have hcreate (parent : String) (hparent : Files.Path.parent? path = some parent) :
      t.createDirectories parent = .ok t := by
    by_cases hempty : parent = ""
    · rw [hempty]
      exact FileTree.createDirectories_empty t
    · have hdirectory : directory path = parent := by
        simp [directory, hparent, hempty]
      exact FileTree.createDirectories_of_isDirectory (hdirectory ▸ h)
  cases hparent : Files.Path.parent? path with
  | none =>
    cases hwrite : t.write path (Text.Utf8.encode text) <;> simp [writeDocument, hparent, hwrite]
  | some parent =>
    cases hwrite : t.write path (Text.Utf8.encode text) <;>
      simp [writeDocument, hparent, hcreate parent hparent, hwrite]

/-- The place of the document was free if its path led nowhere. -/
theorem isFree_of_missing (h : writeDocument t path text = (.ok (), t'))
    (hdir : t.isDirectory (directory path)) (hmissing : t.isThere path = false) :
    ∀ place, t'.canonical? path = some place → t.nodeAt? place = none := by
  intro place hplace
  obtain ⟨place', hwrites⟩ := FileTree.exists_writes ((writeDocument_eq_ok_iff hdir).1 h)
  obtain rfl : place' = place := by
    rw [FileTree.canonical?, hwrites.resolve] at hplace
    exact Option.some.inj hplace
  obtain ⟨found, hlocate, rfl⟩ := hwrites.leads
  by_contra hnode
  obtain ⟨node, hnode⟩ := Option.ne_none_iff_exists'.1 hnode
  obtain ⟨bytes, _, rfl, -⟩ := hwrites.settable node hnode
  have hresolve := FileTree.resolve_of_locate (.refl t) (by decide) hlocate hnode
  rw [FileTree.isThere_iff.2 ⟨_, _, hresolve⟩] at hmissing
  cases hmissing

/-- Writing a document again changes nothing. -/
theorem writeDocument_again (h : writeDocument t path text = (.ok (), t')) :
    writeDocument t' path text = (.ok (), t') := by
  obtain ⟨made, place, -, hwrites⟩ := exists_writes h
  obtain ⟨above, es, -, hdir, -⟩ :=
    FileTree.exists_entry (FileTree.isFile_iff.2 ⟨place, _, hwrites.resolve⟩)
  exact (writeDocument_eq_ok_iff (FileTree.isDirectory_iff.2 ⟨above, es, hdir⟩)).2 hwrites.again

end IndexMapping.Package
