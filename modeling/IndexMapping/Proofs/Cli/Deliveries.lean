import IndexMapping.Cli.GenerateCommand
import IndexMapping.Proofs.Package.Generating
import IndexMapping.Proofs.Package.Loading
import IndexMapping.Proofs.Package.Writing
import IndexMapping.Proofs.Settings.Defaults

/-! A run of the generator as the documents that it writes one after the other. Each input is taken
up in the tree that the documents before it have left. At the end each document is where it was
written, unless a later one has gone to the same file. -/

namespace IndexMapping.Cli.GenerateCommand

open Files (FileTree Node)
open Files.FileTree (Extends)
open Files.Path (segments)
open Package

variable {s : Settings} {o : GenerateOptions} {t t' t'' : FileTree} {input path : String}
  {inputs : List String} {g : Generated} {gs : List Generated}

/-! ### All documents -/

/-- What was generated from an input, with the tree in which the input was taken up. -/
structure Delivery extends Generated where
  input : String
  before : FileTree

/-- Deliveries in a row, each from the tree that the one before it has left. -/
inductive Delivers (s : Settings) (o : GenerateOptions) :
    FileTree → List Delivery → FileTree → Prop where
  | nil (t : FileTree) : Delivers s o t [] t
  | cons {t t' t'' : FileTree} {d : Delivery} {ds : List Delivery} (hbefore : d.before = t)
      (hgenerate : generate t s o d.input = .ok d.toGenerated)
      (hwrite : writeDocument t d.output d.text = (.ok (), t'))
      (hrest : Delivers s o t' ds t'') : Delivers s o t (d :: ds) t''

variable {ds earlier later : List Delivery} {d last : Delivery}

theorem generateAll_eq_ok_iff : generateAll s o t inputs = (.ok gs, t') ↔
    ∃ ds, Delivers s o t ds t' ∧ ds.map (·.input) = inputs ∧ ds.map (·.toGenerated) = gs := by
  induction inputs generalizing t gs with
  | nil =>
    constructor
    · intro h
      cases h
      exact ⟨[], .nil _, rfl, rfl⟩
    · rintro ⟨ds, hds, hinputs, rfl⟩
      cases List.map_eq_nil_iff.1 hinputs
      cases hds
      rfl
  | cons input inputs ih =>
    rw [generateAll]
    constructor
    · intro h
      split at h
      · cases h
      next g t₁ hfirst =>
        split at h
        · cases h
        next gs' t₂ hrest =>
          cases h
          obtain ⟨hgenerate, hwrite⟩ := generateToFile_eq_ok_iff.1 hfirst
          obtain ⟨ds, hds, hinputs, hgs⟩ := ih.1 hrest
          refine ⟨⟨g, input, t⟩ :: ds, .cons rfl hgenerate hwrite hds, ?_, ?_⟩
          · simp [hinputs]
          · simp [hgs]
    · rintro ⟨ds, hds, hinputs, rfl⟩
      cases hds with
      | nil => cases hinputs
      | cons _ hgenerate hwrite hrest =>
        simp only [List.map_cons, List.cons.injEq] at hinputs
        obtain ⟨rfl, hinputs⟩ := hinputs
        rw [generateToFile_eq_ok_iff.2 ⟨hgenerate, hwrite⟩]
        simp only [ih.2 ⟨_, hrest, hinputs, rfl⟩, List.map_cons]

namespace Delivers

/-- Only the files that the documents go to may change. -/
theorem extended (h : Delivers s o t ds t') : ∃ places, Extends places t t' ∧
    ∀ place ∈ places, ∃ d ∈ ds, ∃ bytes, t'.resolve d.output = .ok (place, .file bytes) := by
  induction h with
  | nil t => exact ⟨[], .refl t, by simp⟩
  | cons _ _ hwrite _ ih =>
    obtain ⟨place, hgrows, hresolve⟩ := resolve_writeDocument hwrite
    obtain ⟨places, hext, hplaces⟩ := ih
    refine ⟨place :: places, hgrows.toExtends.trans hext, fun q hq => ?_⟩
    rcases List.mem_cons.1 hq with rfl | hq
    · obtain ⟨bytes, hbytes⟩ := hext.resolve hresolve
      exact ⟨_, List.mem_cons_self, bytes, hbytes⟩
    · obtain ⟨d, hd, hbytes⟩ := hplaces q hq
      exact ⟨d, List.mem_cons_of_mem _ hd, hbytes⟩

/-- A delivery writes its document, and then the later ones follow. -/
theorem split (h : Delivers s o t (earlier ++ d :: later) t') : ∃ after,
    writeDocument d.before d.output d.text = (.ok (), after) ∧ Delivers s o after later t' := by
  generalize hds : earlier ++ d :: later = ds at h
  induction h generalizing earlier with
  | nil t => simp at hds
  | cons hbefore _ hwrite hrest ih =>
    cases earlier with
    | nil =>
      obtain ⟨rfl, rfl⟩ := List.cons_eq_cons.1 hds
      rw [hbefore]
      exact ⟨_, hwrite, hrest⟩
    | cons first earlier => exact ih (List.cons_eq_cons.1 hds).2

/-- The path of a document leads to a file at the end. -/
theorem resolves (h : Delivers s o t ds t') (hd : d ∈ ds) :
    ∃ place bytes, t'.resolve d.output = .ok (place, .file bytes) := by
  obtain ⟨earlier, later, rfl⟩ := List.append_of_mem hd
  obtain ⟨after, hwrite, hlater⟩ := h.split
  obtain ⟨place, -, hresolve⟩ := resolve_writeDocument hwrite
  obtain ⟨places, hext, -⟩ := hlater.extended
  obtain ⟨bytes, hbytes⟩ := hext.resolve hresolve
  exact ⟨place, bytes, hbytes⟩

end Delivers

/-- The last delivery to the file that a path leads to. -/
structure IsLastTo (t : FileTree) (path : String) (ds : List Delivery) (last : Delivery) :
    Prop where
  same : sameFile t last.output path
  split : ∃ earlier later, ds = earlier ++ last :: later ∧
    ∀ d ∈ later, ¬ sameFile t d.output path

theorem exists_isLastTo (hd : d ∈ ds) (h : sameFile t d.output path) :
    ∃ last, IsLastTo t path ds last := by
  induction ds generalizing d with
  | nil => cases hd
  | cons first ds ih =>
    by_cases hlater : ∃ e ∈ ds, sameFile t e.output path
    · obtain ⟨e, he, hsame⟩ := hlater
      obtain ⟨last, hlast, earlier, later, rfl, hnone⟩ := ih he hsame
      exact ⟨last, hlast, first :: earlier, later, rfl, hnone⟩
    · have hnone : ∀ e ∈ ds, ¬ sameFile t e.output path := fun e he hsame => hlater ⟨e, he, hsame⟩
      rcases List.mem_cons.1 hd with rfl | hd
      · exact ⟨d, h, [], ds, rfl, hnone⟩
      · exact absurd h (hnone d hd)

theorem sameFile_iff_of_resolve {a b : String} {place place' : List String} {node node' : Node}
    (ha : t.resolve a = .ok (place, node)) (hb : t.resolve b = .ok (place', node')) :
    sameFile t a b ↔ place = place' := by
  simp [sameFile, FileTree.canonical?, ha, hb]

/-- A file that documents go to has the last of them. -/
theorem Delivers.readBytes (h : Delivers s o t ds t') (hd : d ∈ ds)
    (hlast : IsLastTo t' d.output ds last) :
    t'.readBytes d.output = .ok (Text.Utf8.encode last.text) := by
  obtain ⟨place, bytes, hresolve⟩ := h.resolves hd
  obtain ⟨hsame, earlier, later, rfl, hlater⟩ := hlast
  obtain ⟨after, hwrite, hrest⟩ := h.split
  obtain ⟨place', -, hwritten⟩ := resolve_writeDocument hwrite
  obtain ⟨places, hext, hplaces⟩ := hrest.extended
  obtain ⟨bytes', hlast⟩ := hext.resolve hwritten
  obtain rfl : place' = place := (sameFile_iff_of_resolve hlast hresolve).1 hsame
  -- No later delivery goes there, so the file has kept what was written.
  have hnot : place' ∉ places := by
    intro hmem
    obtain ⟨e, he, _, hplace⟩ := hplaces place' hmem
    exact hlater e he ((sameFile_iff_of_resolve hplace hresolve).2 rfl)
  have hkept := hext.file_of_not_mem hnot (FileTree.nodeAt?_of_resolve hwritten)
  have hthere := FileTree.nodeAt?_of_resolve hresolve
  rw [hkept] at hthere
  cases hthere
  exact FileTree.readBytes_of_resolve hresolve

/-! ### The program -/

theorem run_code_eq_zero {c : GenerateCommand} {env : Settings.Environment}
    (h : (c.run env t).code = 0) : ∃ s gs, Settings.load t env c.config = .ok s ∧
      generateAll (c.adjust s) c.options t c.inputs = (.ok gs, (c.run env t).tree) := by
  unfold run at h ⊢
  cases hload : Settings.load t env c.config with
  | error e => simp [hload] at h
  | ok s =>
    simp only [hload] at h ⊢
    cases hall : generateAll (c.adjust s) c.options t c.inputs with
    | mk outcome final =>
      cases outcome with
      | error e => simp [hall] at h
      | ok gs => exact ⟨s, gs, rfl, hall⟩

theorem run_of_generateAll {c : GenerateCommand} {env : Settings.Environment}
    (hload : Settings.load t env c.config = .ok s)
    (hall : generateAll (c.adjust s) c.options t c.inputs = (.ok gs, t')) :
    c.run env t = { code := 0, tree := t' } := by
  unfold run
  simp only [hload, hall]

/-- A run that ends with code 0 has delivered the document of every input, in order. At the end the
path of each of these documents leads to a file with the last document that has gone to that file:
with the document itself, if no later one has gone there. -/
theorem start_leaves_last (arguments : List String) (env : Settings.Environment) (t : FileTree)
    (items : List Item) (hread : form.read arguments = .ok items)
    (hcode : (program.start arguments env t).code = 0) :
    ∃ s ds, Settings.load t env (ofItems items).config = .ok s ∧
      Delivers ((ofItems items).adjust s) (ofItems items).options t ds
        (program.start arguments env t).tree ∧
      ds.map (·.input) = (ofItems items).inputs ∧
      ∀ d ∈ ds, ∃ last, IsLastTo (program.start arguments env t).tree d.output ds last ∧
        (program.start arguments env t).tree.readBytes d.output =
          .ok (Text.Utf8.encode last.text) := by
  have hstart : program.start arguments env t = (ofItems items).run env t := by
    simp only [program, hread]
  rw [hstart] at hcode ⊢
  obtain ⟨s, gs, hload, hall⟩ := run_code_eq_zero hcode
  obtain ⟨ds, hds, hinputs, -⟩ := generateAll_eq_ok_iff.1 hall
  refine ⟨s, ds, hload, hds, hinputs, fun d hd => ?_⟩
  obtain ⟨place, bytes, hresolve⟩ := hds.resolves hd
  obtain ⟨last, hlast⟩ := exists_isLastTo hd ((sameFile_iff_of_resolve hresolve hresolve).2 rfl)
  exact ⟨last, hlast, hds.readBytes hd hlast⟩

/-! ### Two inputs with one output -/

/-- A descriptor file with one type. -/
def typeText : String := "\x7b\"types\":[\x7b\"name\":\"A\"\x7d]\x7d"

/-- A package with that file. -/
def typeEntries : List (String × Node) := [("x.types.json", .file (Text.Utf8.encode typeText))]

/-- An empty package and that package, with what has been written beside them. -/
def sharing (output : List (String × Node)) : FileTree where
  root := [("a", .directory []), ("b", .directory typeEntries)] ++ output
  work := []
  workText := "/"

def sharingArguments : List String := ["--all", "--nofmt", "--output-filename", "o", "b", "a"]

def sharingItems : List Item :=
  [.flag "all", .flag "nofmt", .value "output-filename" "o", .operand "b", .operand "a"]

def sharingSettings : Settings := (ofItems sharingItems).adjust {}

theorem read_sharing : form.read sharingArguments = .ok sharingItems := rfl

theorem load_sharing : Settings.load (sharing []) [] none = .ok {} := by
  have hmissing : ∀ name ∈ Settings.localFiles, ∀ path ∈ Settings.candidates (sharing []) name,
      Settings.startsMissing (sharing []) path := by decide
  exact Settings.load_of_missing (fun name hname path hpath =>
    Settings.isFile_of_startsMissing rfl (hmissing name hname path hpath)) rfl rfl

/-- What is loaded from the second package. -/
def typePackage : Package := ⟨"b", ⟨[⟨"A", none, false, []⟩]⟩, [⟨"A"⟩]⟩

def typeDocument : String := "\x7b\"mappings\":\x7b\"a\":\x7b\"properties\":\x7b\x7d\x7d\x7d\x7d"

def emptyDocument : String := "\x7b\"mappings\":\x7b\x7d\x7d"

theorem loadDirectory_b : loadDirectory (sharing []) "types.json" "b" = .ok typePackage := by
  have hdirectory : (sharing []).resolve "b" = .ok (["b"], .directory typeEntries) :=
    FileTree.resolve_plain ⟨by decide, by decide, by decide⟩ rfl (by decide) rfl (by simp)
  have hfile : (sharing []).resolve "b/x.types.json" =
      .ok (["b", "x.types.json"], .file (Text.Utf8.encode typeText)) :=
    FileTree.resolve_plain ⟨by decide, by decide, by decide⟩ rfl (by decide) rfl (by simp)
  have hjoined : Files.Path.join "b" "x.types.json" = "b/x.types.json" := by decide
  have hpaths : descriptorFiles (sharing []) "types.json" "b" = .ok ["b/x.types.json"] :=
    hjoined ▸ descriptorFiles_singleton hdirectory
      (hjoined ▸ FileTree.isFile_iff.2 ⟨_, _, hfile⟩) (by decide)
  have hread : readDescriptor (sharing []) "b/x.types.json" =
      .ok ⟨"b/x.types.json", none, [⟨"A", none, false, []⟩]⟩ := by
    have htext : Text.Utf8.decode? (Text.Utf8.encode typeText) = some typeText := by
      decide +kernel
    simp only [readDescriptor, FileTree.readText, FileTree.readBytes, hfile, htext]
    rfl
  have hname : directoryName (sharing []) "b" = "b" := by
    simp only [directoryName, FileTree.canonical?, hdirectory]
    rfl
  rw [loadDirectory_eq, readFiles, hpaths, ok_bind, List.mapM_cons, hread, hname]
  rfl

theorem generate_b : generate (sharing []) sharingSettings (ofItems sharingItems).options "b" =
    .ok ⟨"o", typeDocument, 1⟩ := by
  have hdirectory : (sharing []).isDirectory "b" := FileTree.isDirectory_iff.2 ⟨["b"], typeEntries,
    FileTree.resolve_plain ⟨by decide, by decide, by decide⟩ rfl (by decide) rfl (by simp)⟩
  have hinput := packageInput_directory hdirectory false
  have hcompile : typePackage.types.compile "es-mapping" ⟨"A"⟩ = .ok [] :=
    TypeSet.expand_eq_ok_iff.2 ⟨List.not_mem_nil, _, rfl, FieldType.properties_nil⟩
  have hentry : typePackage.types.mapping "es-mapping" [] ⟨"A"⟩ = .ok (Identifier.snake "A", []) :=
    TypeSet.mapping_eq_ok_iff.2 ⟨⟨rfl, hcompile⟩, List.not_mem_nil⟩
  refine generate_eq_ok_iff.2 ⟨typePackage, typePackage.roots, ?_, select_all _, ?_, .inl rfl, rfl⟩
  · exact hinput ▸ (load_directory hdirectory).trans loadDirectory_b
  · have hwaiting : typePackage.roots.foldl Worklist.request .empty = ⟨[], [⟨"A"⟩]⟩ := by decide
    have hkey : sharingSettings.compiler.tagKey = "es-mapping" := rfl
    simp only [TypeSet.run, TypeSet.build, hwaiting, hkey, TypeSet.drain, hentry]
    rfl

theorem generate_a (output : List (String × Node)) :
    generate (sharing output) sharingSettings (ofItems sharingItems).options "a" =
      .ok ⟨"o", emptyDocument, 0⟩ := by
  have hresolve : (sharing output).resolve "a" = .ok (["a"], .directory []) :=
    FileTree.resolve_plain ⟨by decide, by decide, by decide⟩ rfl (by decide) rfl (by simp)
  have hdirectory : (sharing output).isDirectory "a" := FileTree.isDirectory_iff.2 ⟨_, _, hresolve⟩
  have hinput := packageInput_directory hdirectory false
  have hpaths : descriptorFiles (sharing output) "types.json" "a" = .ok [] := by
    simp [descriptorFiles_directory hresolve]
  have hname : directoryName (sharing output) "a" = "a" := by
    simp only [directoryName, FileTree.canonical?, hresolve]
    rfl
  have hload : loadDirectory (sharing output) "types.json" "a" = .ok ⟨"a", .empty, []⟩ := by
    rw [loadDirectory_eq, readFiles, hpaths, hname]
    rfl
  refine generate_eq_ok_iff.2 ⟨⟨"a", .empty, []⟩, [], ?_, select_all _, rfl, .inl rfl, rfl⟩
  exact hinput ▸ (load_directory hdirectory).trans hload

/-- The file has the new text, whether it was there or not. -/
theorem writeDocument_sharing {output : List (String × Node)} {text : String}
    (houtput : output = [] ∨ ∃ bytes, output = [("o", .file bytes)]) :
    writeDocument (sharing output) "o" text =
      (.ok (), sharing [("o", .file (Text.Utf8.encode text))]) := by
  have hparent : Files.Path.parent? "o" = some "" := by decide
  have hcreate : (sharing output).createDirectories "" = .ok (sharing output) := rfl
  have hpath : FileTree.Passable "o" := ⟨by decide, by decide, by decide⟩
  have hwrite : (sharing output).write "o" (Text.Utf8.encode text) =
      .ok (sharing [("o", .file (Text.Utf8.encode text))]) := by
    have hsegments : segments "o" = ["o"] := by decide
    rw [FileTree.write, FileTree.locate_of_passable hpath, hsegments, FileTree.walk]
    rcases houtput with rfl | ⟨bytes, rfl⟩
    · rfl
    · rfl
  simp only [writeDocument, hparent, hcreate, hwrite]

/-- The tree after a document has been written. -/
def shared (text : String) : FileTree := sharing [("o", .file (Text.Utf8.encode text))]

def typeDelivery : Delivery := ⟨⟨"o", typeDocument, 1⟩, "b", sharing []⟩

def emptyDelivery : Delivery := ⟨⟨"o", emptyDocument, 0⟩, "a", shared typeDocument⟩

theorem delivers_sharing : Delivers sharingSettings (ofItems sharingItems).options (sharing [])
    [typeDelivery, emptyDelivery] (shared emptyDocument) := by
  have hfirst : writeDocument (sharing []) typeDelivery.output typeDelivery.text =
      (.ok (), shared typeDocument) := writeDocument_sharing (.inl rfl)
  have hsecond : writeDocument (shared typeDocument) emptyDelivery.output emptyDelivery.text =
      (.ok (), shared emptyDocument) := writeDocument_sharing (.inr ⟨_, rfl⟩)
  exact .cons rfl generate_b hfirst (.cons rfl (generate_a _) hsecond (.nil _))

theorem start_sharing : program.start sharingArguments [] (sharing []) =
    { code := 0, tree := shared emptyDocument } := by
  have hall : generateAll sharingSettings (ofItems sharingItems).options (sharing []) ["b", "a"] =
      (.ok [typeDelivery.toGenerated, emptyDelivery.toGenerated], shared emptyDocument) :=
    generateAll_eq_ok_iff.2 ⟨_, delivers_sharing, rfl, rfl⟩
  have hload : Settings.load (sharing []) [] (ofItems sharingItems).config = .ok {} := load_sharing
  have hstart : program.start sharingArguments [] (sharing []) =
      (ofItems sharingItems).run [] (sharing []) := by
    simp only [program, read_sharing]
  rw [hstart]
  exact run_of_generateAll hload hall

/-- The document of the first input has been written, but at the end its path leads to that of the
second input. -/
theorem document_overwritten :
    (program.start sharingArguments [] (sharing [])).code = 0 ∧
      ∃ g, generate (sharing []) sharingSettings (ofItems sharingItems).options "b" = .ok g ∧
        (program.start sharingArguments [] (sharing [])).tree.readBytes g.output ≠
          .ok (Text.Utf8.encode g.text) := by
  rw [start_sharing]
  refine ⟨rfl, _, generate_b, ?_⟩
  have hresolve : (shared emptyDocument).resolve "o" =
      .ok (["o"], .file (Text.Utf8.encode emptyDocument)) :=
    FileTree.resolve_plain ⟨by decide, by decide, by decide⟩ rfl (by decide) rfl (by simp)
  rw [FileTree.readBytes_of_resolve hresolve]
  simp only [ne_eq, Except.ok.injEq]
  decide +kernel

theorem start_leaves_last_sharing : form.read sharingArguments = .ok sharingItems ∧
    (program.start sharingArguments [] (sharing [])).code = 0 ∧
    ∃ s ds, Settings.load (sharing []) [] (ofItems sharingItems).config = .ok s ∧
      Delivers ((ofItems sharingItems).adjust s) (ofItems sharingItems).options (sharing []) ds
        (program.start sharingArguments [] (sharing [])).tree ∧
      ds.map (·.input) = ["b", "a"] ∧
      ∀ d ∈ ds, ∃ last,
        IsLastTo (program.start sharingArguments [] (sharing [])).tree d.output ds last ∧
        (program.start sharingArguments [] (sharing [])).tree.readBytes d.output =
          .ok (Text.Utf8.encode last.text) := by
  have hcode : (program.start sharingArguments [] (sharing [])).code = 0 := by rw [start_sharing]
  exact ⟨read_sharing, hcode,
    start_leaves_last sharingArguments [] (sharing []) sharingItems read_sharing hcode⟩

end IndexMapping.Cli.GenerateCommand
