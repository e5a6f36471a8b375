import IndexMapping.Package.Generate
import IndexMapping.Proofs.Files.Walk
import IndexMapping.Proofs.Schema.Part

/-! Generating the document of an input. When all types are selected, its text is that of the
document of all roots of the package that the input makes. -/

namespace IndexMapping.Package

open Files (FileTree)
open Files.Path (stem?)

variable {t : FileTree} {extension path dir input text : String} {p : Package} {s : Settings}
  {o : GenerateOptions} {out : Generated} {d : Document}

/-! ### What is generated -/

/-- A result of generating from an input: the input makes a package, the selected types make the
text, and the output goes to the path that was asked for or to the derived one. -/
structure Generates (t : FileTree) (s : Settings) (o : GenerateOptions) (input : String)
    (p : Package) (ids : List TypeId) (out : Generated) : Prop where
  load : load t s.input.extension (packageInput t o.package input) = .ok p
  select : p.select o.types s.input.allTypes = .ok ids
  text : (p.types.run s.compiler (ids.foldl Worklist.request .empty)).1 = .ok out.text
  output : o.outputFilename = some out.output ∨ o.outputFilename = none ∧
    outputPath t s (packageInput t o.package input) p.name = .ok out.output
  typeCount : out.typeCount = ids.length

theorem generate_eq_ok_iff : generate t s o input = .ok out ↔
    ∃ p ids, Generates t s o input p ids out := by
  obtain ⟨output, text, typeCount⟩ := out
  simp only [generate, bind_eq_ok]
  constructor
  · rintro ⟨p, hload, ids, hselect, text, htext, hout⟩
    cases hfilename : o.outputFilename with
    | some path =>
      simp only [hfilename] at hout
      cases hout
      exact ⟨p, ids, hload, hselect, htext, .inl hfilename, rfl⟩
    | none =>
      simp only [hfilename] at hout
      obtain ⟨path, hpath, hout⟩ := bind_eq_ok.1 hout
      cases hout
      exact ⟨p, ids, hload, hselect, htext, .inr ⟨hfilename, hpath⟩, rfl⟩
  · rintro ⟨p, ids, hload, hselect, htext, houtput, rfl⟩
    refine ⟨p, hload, ids, hselect, text, htext, ?_⟩
    rcases houtput with hfilename | ⟨hfilename, hpath⟩
    · simp only [hfilename]
      rfl
    · simp only [hfilename, hpath, ok_bind]

/-! ### Inputs -/

theorem load_directory (h : t.isDirectory dir) :
    load t extension dir = loadDirectory t extension dir := by
  obtain ⟨place, es, hresolve⟩ := FileTree.isDirectory_iff.1 h
  simp only [load, hresolve]

theorem load_file (h : t.isFile path) : load t extension path = loadFile t extension path := by
  obtain ⟨place, bytes, hresolve⟩ := FileTree.isFile_iff.1 h
  simp only [load, hresolve]

theorem packageInput_directory (h : t.isDirectory dir) (package : Bool) :
    packageInput t package dir = dir := by
  simp [packageInput, h]

theorem packageInput_false (t : FileTree) (path : String) : packageInput t false path = path := rfl

/-! ### All types -/

/-- The text is that of the document of all roots. -/
structure Prints (p : Package) (c : CompilerSettings) (d : Document) (text : String) : Prop where
  document : p.types.document c.tagKey p.roots = .ok d
  render : d.render c.format = .ok text

theorem run_roots_eq_ok_iff {c : CompilerSettings} :
    (p.types.run c (p.roots.foldl Worklist.request .empty)).1 = .ok text ↔
      ∃ d, p.Prints c d text := by
  rw [TypeSet.run_eq_render, bind_eq_ok]
  exact ⟨fun ⟨d, hd, htext⟩ => ⟨d, hd, htext⟩, fun ⟨d, hd, htext⟩ => ⟨d, hd, htext⟩⟩

theorem select_all (p : Package) : p.select [] true = .ok p.roots := by
  simp [select]

theorem prints_of_generate (hdir : t.isDirectory dir) (htypes : o.types = [])
    (hall : s.input.allTypes = true) (h : generate t s o dir = .ok out) :
    ∃ p d, loadDirectory t s.input.extension dir = .ok p ∧ p.Prints s.compiler d out.text := by
  obtain ⟨p, ids, hload, hselect, htext, -, -⟩ := generate_eq_ok_iff.1 h
  rw [packageInput_directory hdir, load_directory hdir] at hload
  rw [htypes, hall, select_all] at hselect
  cases hselect
  obtain ⟨d, hd⟩ := run_roots_eq_ok_iff.1 htext
  exact ⟨p, d, hload, hd⟩

/-- A file with the extension has a path for its output. -/
theorem exists_generate (hfile : t.isFile path) (hstem : (stem? s.input.extension path).isSome)
    (htypes : o.types = []) (hpackage : o.package = false) (hall : s.input.allTypes = true)
    (hp : loadFile t s.input.extension path = .ok p) (hd : p.Prints s.compiler d text) :
    ∃ out, generate t s o path = .ok out ∧ out.text = text := by
  obtain ⟨stem, hstem⟩ := Option.isSome_iff_exists.1 hstem
  obtain ⟨output, houtput⟩ : ∃ output, o.outputFilename = some output ∨
      o.outputFilename = none ∧ outputPath t s path p.name = .ok output := by
    cases o.outputFilename with
    | some output => exact ⟨output, .inl rfl⟩
    | none => simp [outputPath, FileTree.isDirectory_of_isFile hfile, hstem]
  refine ⟨⟨output, text, p.roots.length⟩,
    generate_eq_ok_iff.2 ⟨p, p.roots, ?_, ?_, ?_, ?_, rfl⟩, rfl⟩
  · rw [hpackage, packageInput_false, load_file hfile, hp]
  · rw [htypes, hall, select_all]
  · exact run_roots_eq_ok_iff.2 ⟨d, hd⟩
  · rwa [hpackage, packageInput_false]

end IndexMapping.Package
