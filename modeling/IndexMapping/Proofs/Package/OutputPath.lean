import IndexMapping.Proofs.Files.Writing
import IndexMapping.Proofs.Package.Generating
import IndexMapping.Proofs.Package.Loading
import IndexMapping.Proofs.Text.Utf8

/-! Where the document of a directory goes. The name of the package is joined to the path of the
directory, so the document goes into the directory only if the joined name is one name. A package
name may be a longer path as well, and then it leads elsewhere. -/

namespace IndexMapping

/-! ### Names of a joined path -/

namespace Files.Path

variable {base front path rest : String} {as bs : List Piece}

theorem kept_append (has : as ≠ []) :
    kept (as ++ bs) = kept as ++ bs.filter fun q => counts q.name := by
  obtain ⟨p, ps, rfl⟩ := List.exists_cons_of_ne_nil has
  simp [kept]

theorem names_slash (front rest : String) :
    names (front ++ "/" ++ rest) = names front ++ (segments rest).filter counts := by
  have hpieces : pieces (front ++ "/" ++ rest) =
      pieces front ++ split [] (front.toList.length + 1) rest.toList := by
    simp [pieces, split_slash]
  have hrest : (split [] (front.toList.length + 1) rest.toList).map (·.name) = segments rest :=
    names_split _ _ _ _
  have hfront : pieces front ≠ [] := split_ne_nil _ _ _
  rw [names, parts_eq, hpieces, kept_append hfront, List.map_append, names, parts_eq, ← hrest,
    List.filter_map]
  rfl

theorem join_of_isAbsolute (h : isAbsolute path) : join base path = path := by
  simp [join, h]

theorem names_join (hbase : base ≠ "") (hpath : isAbsolute path = false) :
    names (join base path) = names base ++ (segments path).filter counts := by
  rcases join_cases hbase hpath with ⟨front, rfl, hjoin⟩ | hjoin
  · have hfront : names (front ++ "/") = names front := by
      have hnames := names_slash front ""
      rwa [String.append_empty, show (segments "").filter counts = [] from rfl, List.append_nil]
        at hnames
    rw [hjoin, names_slash, hfront]
  · rw [hjoin, names_slash]

/-- A path that leads to a directory and then to one name in it. -/
structure DirectlyIn (directory path : String) : Prop where
  absolute : isAbsolute path = isAbsolute directory
  names : ∃ name, names path = names directory ++ [name] ∧ name ≠ ".."

theorem directlyIn_join (hbase : base ≠ "") (hpath : isAbsolute path = false) :
    DirectlyIn base (join base path) ↔
      ∃ name, (segments path).filter counts = [name] ∧ name ≠ ".." := by
  constructor
  · rintro ⟨-, name, hname, hup⟩
    rw [names_join hbase hpath, List.append_cancel_left_eq] at hname
    exact ⟨name, hname, hup⟩
  · rintro ⟨name, hname, hup⟩
    exact ⟨isAbsolute_join hbase hpath, name, by rw [names_join hbase hpath, hname], hup⟩

theorem isAbsolute_append_of_no_slash (base : String) (h : '/' ∉ rest.toList) :
    isAbsolute (base ++ rest) = isAbsolute base := by
  by_cases hbase : base = ""
  · rw [hbase, String.empty_append, isAbsolute_of_no_slash h]
    rfl
  · exact isAbsolute_append hbase rest

theorem filter_segments_of_no_slash {name : String} (h : '/' ∉ path.toList) :
    ((segments path).filter counts = [name] ∧ name ≠ "..") ↔
      name = path ∧ path ≠ "" ∧ path ≠ "." ∧ path ≠ ".." := by
  rw [segments_of_no_slash h]
  by_cases hpath : counts path
  · rw [List.filter_cons_of_pos hpath, List.filter_nil, List.singleton_inj]
    simp only [counts, Bool.and_eq_true, decide_eq_true_eq] at hpath
    constructor
    · rintro ⟨rfl, hup⟩
      exact ⟨rfl, hpath.1, hpath.2, hup⟩
    · rintro ⟨rfl, -, -, hup⟩
      exact ⟨rfl, hup⟩
  · have hnone : path = "" ∨ path = "." := FileTree.not_counts_iff.1 (Bool.eq_false_iff.2 hpath)
    rw [List.filter_cons_of_neg hpath]
    rcases hnone with rfl | rfl <;> simp

end Files.Path

/-! ### The path of a document -/

namespace Package

open Files (FileTree Node)
open Files.Path (DirectlyIn counts isAbsolute names segments)

theorem ne_empty_of_isDirectory {t : FileTree} {path : String} (h : t.isDirectory path) :
    path ≠ "" := by
  obtain ⟨place, es, hresolve⟩ := FileTree.isDirectory_iff.1 h
  exact (FileTree.passable_of_locate (FileTree.resolve_eq_ok_iff.1 hresolve)).notEmpty

/-- The document of a directory goes into the directory if and only if the package name and the
suffix make one name other than two dots, or a path that is the one of the directory with such a
name after it. -/
theorem outputPath_directlyIn_iff (t : FileTree) (s : Settings) (input package : String)
    (hinput : t.isDirectory input) (hsuffix : '/' ∉ s.output.fileSuffix.toList) :
    ∃ output, outputPath t s input package = .ok output ∧
      (isAbsolute package = false → (DirectlyIn input output ↔
        ∃ name, (segments (package ++ s.output.fileSuffix)).filter counts = [name] ∧
          name ≠ "..")) ∧
      (isAbsolute package = true → (DirectlyIn input output ↔ isAbsolute input = true ∧
        ∃ name, names (package ++ s.output.fileSuffix) = names input ++ [name] ∧ name ≠ "..")) ∧
      ('/' ∉ package.toList → (DirectlyIn input output ↔
        package ++ s.output.fileSuffix ≠ "" ∧ package ++ s.output.fileSuffix ≠ "." ∧
          package ++ s.output.fileSuffix ≠ "..")) ∧
      ∀ (o : GenerateOptions) (p : Package) (g : Generated), o.outputFilename = none →
        load t s.input.extension input = .ok p → p.name = package →
          generate t s o input = .ok g → g.output = output := by
  have hne := ne_empty_of_isDirectory hinput
  have houtput : outputPath t s input package =
      .ok (Files.Path.join input (package ++ s.output.fileSuffix)) := by
    rw [outputPath, if_pos hinput]
  have habsolute := Files.Path.isAbsolute_append_of_no_slash package hsuffix
  refine ⟨_, houtput, fun hrelative => ?_, fun hroot => ?_, fun hslash => ?_, ?_⟩
  · exact Files.Path.directlyIn_join hne (habsolute.trans hrelative)
  · rw [Files.Path.join_of_isAbsolute (habsolute.trans hroot)]
    constructor
    · rintro ⟨hsame, hnames⟩
      exact ⟨hsame ▸ habsolute.trans hroot, hnames⟩
    · rintro ⟨hdirectory, hnames⟩
      exact ⟨(habsolute.trans hroot).trans hdirectory.symm, hnames⟩
  · have hjoined : '/' ∉ (package ++ s.output.fileSuffix).toList := by
      simp [hslash, hsuffix]
    rw [Files.Path.directlyIn_join hne (Files.Path.isAbsolute_of_no_slash hjoined)]
    simp only [Files.Path.filter_segments_of_no_slash hjoined, exists_eq_left]
  · rintro o p g hfilename hload rfl hg
    obtain ⟨p', ids, hp', -, -, hout, -⟩ := generate_eq_ok_iff.1 hg
    rw [packageInput_directory hinput] at hp' hout
    obtain rfl : p = p' := Except.ok.inj (hload.symm.trans hp')
    rw [hfilename, houtput] at hout
    simpa [eq_comm] using hout

/-! ### A package that is an absolute path -/

/-- A descriptor file that declares it. -/
def strayText : String := "\x7b\"package\":\"/x\",\"types\":[]\x7d"

def strayEntries : List (String × Node) := [("a.types.json", .file (Text.Utf8.encode strayText))]

/-- A directory with that file, and what has been written beside it. -/
def stray (output : List (String × Node)) : FileTree where
  root := ("d", .directory strayEntries) :: output
  work := []
  workText := "/"

def straySettings : Settings where
  compiler := { format := .compact }

def strayDocument : String := "\x7b\"mappings\":\x7b\x7d\x7d"

theorem resolve_stray : (stray []).resolve "d" = .ok (["d"], .directory strayEntries) :=
  FileTree.resolve_plain ⟨by decide, by decide, by decide⟩ rfl (by decide) rfl (by simp)

theorem isDirectory_stray : (stray []).isDirectory "d" :=
  FileTree.isDirectory_iff.2 ⟨_, _, resolve_stray⟩

theorem load_stray : load (stray []) "types.json" "d" = .ok ⟨"/x", .empty, []⟩ := by
  have hfile : (stray []).resolve "d/a.types.json" =
      .ok (["d", "a.types.json"], .file (Text.Utf8.encode strayText)) :=
    FileTree.resolve_plain ⟨by decide, by decide, by decide⟩ rfl (by decide) rfl (by simp)
  have hjoined : Files.Path.join "d" "a.types.json" = "d/a.types.json" := by decide
  have hpaths : descriptorFiles (stray []) "types.json" "d" = .ok ["d/a.types.json"] :=
    hjoined ▸ descriptorFiles_singleton resolve_stray
      (hjoined ▸ FileTree.isFile_iff.2 ⟨_, _, hfile⟩) (by decide)
  have hread : readDescriptor (stray []) "d/a.types.json" =
      .ok ⟨"d/a.types.json", some "/x", []⟩ := by
    simp only [readDescriptor, FileTree.readText, FileTree.readBytes, hfile,
      Text.Utf8.decode?_encode]
    rfl
  rw [load_directory isDirectory_stray, loadDirectory_eq, readFiles, hpaths, ok_bind,
    List.mapM_cons, hread]
  rfl

theorem generate_stray : generate (stray []) straySettings {} "d" =
    .ok ⟨"/x_es_mapper.json", strayDocument, 0⟩ := by
  have hinput := packageInput_directory isDirectory_stray false
  have houtput : outputPath (stray []) straySettings "d" "/x" = .ok "/x_es_mapper.json" := by
    rw [outputPath, if_pos isDirectory_stray]
    rfl
  refine generate_eq_ok_iff.2 ⟨⟨"/x", .empty, []⟩, [], ?_, rfl, rfl, .inr ⟨rfl, ?_⟩, rfl⟩
  · exact hinput ▸ load_stray
  · exact hinput ▸ houtput

theorem generateToFile_stray : generateToFile (stray []) straySettings {} "d" =
    (.ok ⟨"/x_es_mapper.json", strayDocument, 0⟩,
      stray [("x_es_mapper.json", .file (Text.Utf8.encode strayDocument))]) := by
  have hparent : Files.Path.parent? "/x_es_mapper.json" = some "/" := by decide
  have hroot : ∀ ending, (stray []).locate ending "/" =
      .ok (.found [] (.directory (stray []).root)) := by
    intro ending
    have hsegments : segments "/" = ["", ""] := by decide
    rw [FileTree.locate_of_passable ⟨by decide, by decide, by decide⟩, hsegments, FileTree.walk,
      if_pos (by decide), FileTree.walk, if_pos (by decide), FileTree.walk]
    rfl
  have hcreate : (stray []).createDirectories "/" = .ok (stray []) := by
    have hchain : FileTree.chain "/".length "/" = ["/"] := by decide
    have hdirectory : (stray []).isDirectory "/" :=
      FileTree.isDirectory_iff.2 ⟨_, _, FileTree.resolve_eq_ok_iff.2 (hroot _)⟩
    simp [FileTree.createDirectories, hchain, FileTree.createChain, FileTree.createDirectory,
      hroot, hdirectory]
  have hwrite : (stray []).write "/x_es_mapper.json" (Text.Utf8.encode strayDocument) =
      .ok (stray [("x_es_mapper.json", .file (Text.Utf8.encode strayDocument))]) := by
    have hsegments : segments "/x_es_mapper.json" = ["", "x_es_mapper.json"] := by decide
    rw [FileTree.write, FileTree.locate_of_passable ⟨by decide, by decide, by decide⟩, hsegments,
      FileTree.walk, if_pos (by decide), FileTree.walk]
    rfl
  simp only [generateToFile, generate_stray, writeDocument, hparent, hcreate, hwrite]

/-- The document has been written beside the directory, in which nothing has changed. -/
theorem document_stray :
    (stray []).isDirectory "d" ∧ '/' ∉ straySettings.output.fileSuffix.toList ∧
      ∃ g final, generateToFile (stray []) straySettings {} "d" = (.ok g, final) ∧
        ¬ DirectlyIn "d" g.output ∧
        final.nodeAt? ["d"] = (stray []).nodeAt? ["d"] ∧
        final.nodeAt? ["x_es_mapper.json"] = some (.file (Text.Utf8.encode g.text)) := by
  refine ⟨isDirectory_stray, by decide, _, _, generateToFile_stray, ?_, rfl, rfl⟩
  rintro ⟨habsolute, -⟩
  exact absurd habsolute (by decide)

theorem outputPath_directlyIn_iff_stray :
    (stray []).isDirectory "d" ∧ '/' ∉ straySettings.output.fileSuffix.toList ∧
      (∃ output, outputPath (stray []) straySettings "d" "./x" = .ok output ∧
        DirectlyIn "d" output) ∧
      (∃ output, outputPath (stray []) straySettings "d" "../x" = .ok output ∧
        ¬ DirectlyIn "d" output) ∧
      (∃ output, outputPath (stray []) straySettings "d" "x" = .ok output ∧
        DirectlyIn "d" output) ∧
      ∃ output, outputPath (stray []) straySettings "d" "/x" = .ok output ∧
        ¬ DirectlyIn "d" output ∧
        ∃ g, generate (stray []) straySettings {} "d" = .ok g ∧ g.output = output := by
  have hsuffix : '/' ∉ straySettings.output.fileSuffix.toList := by decide
  have hpath := fun package => outputPath_directlyIn_iff (stray []) straySettings "d" package
    isDirectory_stray hsuffix
  refine ⟨isDirectory_stray, hsuffix, ?_, ?_, ?_, ?_⟩
  · obtain ⟨output, houtput, hrelative, -⟩ := hpath "./x"
    exact ⟨output, houtput, (hrelative rfl).2 ⟨"x_es_mapper.json", by decide, by decide⟩⟩
  · obtain ⟨output, houtput, hrelative, -⟩ := hpath "../x"
    refine ⟨output, houtput, fun h => ?_⟩
    obtain ⟨name, hname, -⟩ := (hrelative rfl).1 h
    have htwo : ((segments ("../x" ++ straySettings.output.fileSuffix)).filter counts).length =
        2 := by decide
    rw [hname] at htwo
    cases htwo
  · obtain ⟨output, houtput, -, -, hplain, -⟩ := hpath "x"
    exact ⟨output, houtput, (hplain (by decide)).2 ⟨by decide, by decide, by decide⟩⟩
  · obtain ⟨output, houtput, -, hroot, -, hgenerate⟩ := hpath "/x"
    refine ⟨output, houtput, fun h => ?_, _, generate_stray, ?_⟩
    · exact absurd ((hroot rfl).1 h).1 (by decide)
    · exact hgenerate {} _ _ rfl load_stray rfl generate_stray

end Package

end IndexMapping
