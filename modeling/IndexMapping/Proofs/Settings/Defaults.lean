import IndexMapping.Proofs.Files.Writing
import IndexMapping.Proofs.Outcome
import IndexMapping.Settings.Load

/-! Settings that nobody has set. A usual place without a file adds no layer, and without layers
each setting has its default. -/

namespace IndexMapping.Settings

open Files (FileTree)

variable {t : FileTree} {env : Environment} {name path : String}

/-- The paths that a name may stand for. -/
def candidates (t : FileTree) (name : String) : List String :=
  absolutePath t name ::
    FileFormat.all.filterMap fun f =>
      Files.Path.appendExtension (absolutePath t name) f.extension

/-- A name that stands for no file is not found. -/
theorem findFile_of_missing (h : ∀ path ∈ candidates t name, t.isFile path = false) :
    findFile t name = .error (.notFound name) := by
  have hpath : t.isFile (absolutePath t name) = false := h _ List.mem_cons_self
  have hnone : (FileFormat.all.filterMap fun f =>
      (Files.Path.appendExtension (absolutePath t name) f.extension).map fun p => (p, f)).find?
        (fun c => t.isFile c.1) = none := by
    simp only [List.find?_eq_none, List.mem_filterMap, Option.map_eq_some_iff]
    rintro _ ⟨f, hf, path, hpath, rfl⟩
    have hmem : path ∈ candidates t name :=
      List.mem_cons_of_mem _ (List.mem_filterMap.2 ⟨f, hf, hpath⟩)
    simp [h path hmem]
  unfold findFile
  simp only [hpath, hnone]
  rfl

theorem fetch_of_missing (h : ∀ path ∈ candidates t name, t.isFile path = false) :
    fetch t name = .error (.notFound name) := by
  unfold fetch
  rw [findFile_of_missing h]
  rfl

theorem optionalLayer_of_missing (h : ∀ path ∈ candidates t name, t.isFile path = false) :
    optionalLayer t name = .ok [] := by
  have hfetch := fetch_of_missing h
  unfold optionalLayer
  rw [hfetch]

/-- Whether a path from the topmost directory has a first name that is not there. -/
def startsMissing (t : FileTree) (path : String) : Bool :=
  match Files.Path.segments path with
  | "" :: first :: _ => decide (FileTree.Plain first) && (Files.child? first t.root).isNone
  | _ => false

theorem isFile_of_startsMissing (hwork : t.work = []) (h : startsMissing t path) :
    t.isFile path = false := by
  unfold startsMissing at h
  split at h
  next first rest hsegments =>
    obtain ⟨hfirst, hmissing⟩ := (Bool.and_eq_true _ _).mp h
    exact FileTree.isFile_of_missing hwork hsegments (of_decide_eq_true hfirst)
      (Option.isNone_iff_eq_none.1 hmissing)
  next => cases h

theorem layers_of_missing
    (husual : ∀ name ∈ localFiles, ∀ path ∈ candidates t name, t.isFile path = false)
    (huser : userFile? t env = none) :
    layers t env none = .ok [[], [], [], variableLayer env] := by
  have hlocal : localFiles.mapM (optionalLayer t) = .ok [[], [], []] := by
    have hlayer := fun name hname => optionalLayer_of_missing (husual name hname)
    simp only [localFiles, List.forall_mem_cons] at hlayer
    obtain ⟨hfirst, hsecond, hthird, -⟩ := hlayer
    simp only [localFiles, List.mapM_cons, List.mapM_nil, hfirst, hsecond, hthird]
    rfl
  unfold layers
  rw [hlocal, huser]
  rfl

theorem load_of_missing
    (husual : ∀ name ∈ localFiles, ∀ path ∈ candidates t name, t.isFile path = false)
    (huser : userFile? t env = none) (hvariables : variableLayer env = []) :
    load t env none = .ok {} := by
  unfold load
  rw [layers_of_missing husual huser, hvariables]
  rfl

end IndexMapping.Settings
