import IndexMapping.Proofs.Settings.Defaults
import IndexMapping.Proofs.Settings.Layers
import IndexMapping.Proofs.Text.Utf8
import Mathlib.Data.List.Forall2

/-! Where each setting comes from. The sources of settings lie in layers on top of each other: the
three usual files, the user's file, the file that was asked for, and the variables. Each setting is
that of the last source that sets it, or has its default if none does. -/

namespace IndexMapping.Settings

open Files (FileTree)

variable {t : FileTree} {env : Environment} {path : Option String} {name group : String}
  {layer : Layer} {layers : List Layer} {o : Overrides} {os : List Overrides}

/-! ### What sources set -/

/-- The settings that a source sets. -/
structure Overrides where
  tagKey : Option String := none
  format : Option OutputFormat := none
  allTypes : Option Bool := none
  extension : Option String := none
  fileSuffix : Option String := none

/-- The last value that a source sets, if any does. -/
def latest {α : Type} (field : Overrides → Option α) (os : List Overrides) : Option α :=
  (os.filterMap field).getLast?

/-- Each setting is the last one set, or its default. -/
def Overrides.resolve (os : List Overrides) : Settings where
  compiler := ⟨(latest tagKey os).getD "es-mapping", (latest format os).getD .pretty⟩
  input := ⟨(latest allTypes os).getD false, (latest extension os).getD "types.json"⟩
  output := ⟨(latest fileSuffix os).getD "_es_mapper.json"⟩

/-- The name of a format, in any letter case. -/
def Value.format? : Value → Option OutputFormat
  | .scalar _ (.string s) => [OutputFormat.pretty, .compact].find? fun f => f.name = Text.lower s
  | _ => none

/-- The layer sets each setting at most once, to a value of the right type. -/
structure Layer.Says (layer : Layer) (o : Overrides) : Prop where
  grouped : ∀ e ∈ layer, Grouped e.1 e.2
  tagKey : (layer.values "compiler" "tag_key").map Value.text? = o.tagKey.toList.map some
  format : (layer.values "compiler" "format").map Value.format? = o.format.toList.map some
  allTypes : (layer.values "input" "all_types").map Value.flag? = o.allTypes.toList.map some
  extension : (layer.values "input" "extension").map Value.text? = o.extension.toList.map some
  fileSuffix : (layer.values "output" "file_suffix").map Value.text? = o.fileSuffix.toList.map some

instance (layer : Layer) (o : Overrides) : Decidable (layer.Says o) :=
  decidable_of_iff ((∀ e ∈ layer, Grouped e.1 e.2) ∧
      (layer.values "compiler" "tag_key").map Value.text? = o.tagKey.toList.map some ∧
      (layer.values "compiler" "format").map Value.format? = o.format.toList.map some ∧
      (layer.values "input" "all_types").map Value.flag? = o.allTypes.toList.map some ∧
      (layer.values "input" "extension").map Value.text? = o.extension.toList.map some ∧
      (layer.values "output" "file_suffix").map Value.text? = o.fileSuffix.toList.map some)
    ⟨fun ⟨hgrouped, htagKey, hformat, hallTypes, hextension, hfileSuffix⟩ =>
        ⟨hgrouped, htagKey, hformat, hallTypes, hextension, hfileSuffix⟩,
      fun ⟨hgrouped, htagKey, hformat, hallTypes, hextension, hfileSuffix⟩ =>
        ⟨hgrouped, htagKey, hformat, hallTypes, hextension, hfileSuffix⟩⟩

/-- A file that need not be there sets what its text says, and nothing if it is missing. -/
inductive FileSays (t : FileTree) (name : String) : Overrides → Prop where
  | missing {e : LoadError} (h : fetch t name = .error e) : FileSays t name {}
  | there {file : String × FileFormat × String} {layer : Layer} {o : Overrides}
      (hfetch : fetch t name = .ok file) (hread : readLayer file = .ok layer)
      (hgives : layer.Says o) : FileSays t name o

theorem says_nil : Layer.Says [] {} := ⟨by simp, rfl, rfl, rfl, rfl, rfl⟩

theorem FileSays.exists_layer (h : FileSays t name o) :
    ∃ layer, optionalLayer t name = .ok layer ∧ layer.Says o := by
  unfold optionalLayer
  cases h with
  | missing h =>
    rw [h]
    exact ⟨[], rfl, says_nil⟩
  | there hfetch hread hgives =>
    rw [hfetch]
    exact ⟨_, hread, hgives⟩

/-! ### Reading the last value -/

section Reading

variable {α : Type} {conv : Value → Option α} {read : String → Value → Except LoadError α}
  {field : Overrides → Option α}

theorem isScalar_of_conv {v : Value} {x : α} (harray : ∀ o xs, conv (.array o xs) = none)
    (htable : ∀ o es, conv (.table o es) = none) (h : conv v = some x) : v.IsScalar := by
  cases v with
  | scalar o s => exact ⟨o, s, rfl⟩
  | array o xs =>
    rw [harray] at h
    cases h
  | table o es =>
    rw [htable] at h
    cases h

theorem map_flatMap_values
    (h : List.Forall₂ (fun layer o => (Layer.values layer group name).map conv =
      (field o).toList.map some) layers os) :
    (layers.flatMap (·.values group name)).map conv = (os.filterMap field).map some := by
  induction h with
  | nil => rfl
  | cons hlayer _ ih =>
    rw [List.flatMap_cons, List.map_append, hlayer, ih, List.filterMap_cons]
    cases field _ <;> rfl

theorem readOr_stack (group name : String) (hgroup : group ∈ groups)
    (hgrouped : ∀ layer ∈ layers, ∀ e ∈ layer, Grouped e.1 e.2)
    (harray : ∀ o xs, conv (.array o xs) = none) (htable : ∀ o es, conv (.table o es) = none)
    (hread : ∀ key v x, conv v = some x → read key v = .ok x)
    (h : List.Forall₂ (fun layer o => (Layer.values layer group name).map conv =
      (field o).toList.map some) layers os) (default : α) :
    (stack layers).readOr read default group name = .ok ((latest field os).getD default) := by
  have hall := map_flatMap_values h
  have hvalues : ∀ layer ∈ layers, ∀ v ∈ layer.values group name, v.IsScalar := by
    intro layer hlayer v hv
    have hmem : conv v ∈ (os.filterMap field).map some :=
      hall ▸ List.mem_map_of_mem (List.mem_flatMap.2 ⟨layer, hlayer, hv⟩)
    obtain ⟨x, -, hx⟩ := List.mem_map.1 hmem
    exact isScalar_of_conv harray htable hx.symm
  have hlast : (layers.flatMap (·.values group name)).getLast?.map conv =
      (latest field os).map some := by
    rw [latest, ← List.getLast?_map, hall, List.getLast?_map]
  rw [Value.readOr, at?_stack hgroup hgrouped hvalues]
  cases hv : (layers.flatMap (·.values group name)).getLast? with
  | none =>
    rw [hv] at hlast
    rw [Option.map_eq_none_iff.1 hlast.symm]
    rfl
  | some v =>
    rw [hv] at hlast
    obtain ⟨x, hx, hconv⟩ := Option.map_eq_some_iff.1 hlast.symm
    rw [hx]
    exact hread _ v x hconv.symm

end Reading

theorem toText_eq (key : String) (v : Value) (x : String) (h : v.text? = some x) :
    toText key v = .ok x := by
  rw [toText, convert, h]

theorem toFlag_eq (key : String) (v : Value) (x : Bool) (h : v.flag? = some x) :
    toFlag key v = .ok x := by
  rw [toFlag, convert, h]

theorem toFormat_eq (key : String) (v : Value) (x : OutputFormat) (h : v.format? = some x) :
    toFormat key v = .ok x := by
  unfold Value.format? at h
  split at h
  next o s => simp only [toFormat, Value.alternative?, h]
  next => cases h

/-- All layers together give each setting the last value that a layer sets. -/
theorem ofValue_stack (h : List.Forall₂ Layer.Says layers os) :
    ofValue (stack layers) = .ok (Overrides.resolve os) := by
  have hgrouped : ∀ layer ∈ layers, ∀ e ∈ layer, Grouped e.1 e.2 := by
    induction h with
    | nil => exact fun _ hlayer => absurd hlayer List.not_mem_nil
    | cons hlayer _ ih => exact List.forall_mem_cons.2 ⟨hlayer.grouped, ih⟩
  have htagKey := readOr_stack "compiler" "tag_key" (by decide) hgrouped (fun _ _ => rfl)
    (fun _ _ => rfl) toText_eq (h.imp fun _ _ h => h.tagKey) "es-mapping"
  have hformat := readOr_stack "compiler" "format" (by decide) hgrouped (fun _ _ => rfl)
    (fun _ _ => rfl) toFormat_eq (h.imp fun _ _ h => h.format) .pretty
  have hallTypes := readOr_stack "input" "all_types" (by decide) hgrouped (fun _ _ => rfl)
    (fun _ _ => rfl) toFlag_eq (h.imp fun _ _ h => h.allTypes) false
  have hextension := readOr_stack "input" "extension" (by decide) hgrouped (fun _ _ => rfl)
    (fun _ _ => rfl) toText_eq (h.imp fun _ _ h => h.extension) "types.json"
  have hfileSuffix := readOr_stack "output" "file_suffix" (by decide) hgrouped (fun _ _ => rfl)
    (fun _ _ => rfl) toText_eq (h.imp fun _ _ h => h.fileSuffix) "_es_mapper.json"
  rw [ofValue_of_hasTables (hasTables_stack hgrouped), htagKey, hformat, hallTypes, hextension,
    hfileSuffix]
  rfl

/-- A source that sets nothing does not count. -/
theorem resolve_skip {earlier later : List Overrides} :
    Overrides.resolve (earlier ++ {} :: later) = Overrides.resolve (earlier ++ later) := by
  simp only [Overrides.resolve, latest, List.filterMap_append, List.filterMap_cons]

/-- A file with a name adds its layer; without a name there is no layer, and nothing is set. -/
theorem exists_layers {name : Option String} {read : String → Except LoadError Layer}
    (h : name.elim (o = {}) fun n => ∃ layer, read n = .ok layer ∧ layer.Says o) :
    ∃ ls os, name.toList.mapM read = .ok ls ∧ List.Forall₂ Layer.Says ls os ∧ ∀ earlier later,
      Overrides.resolve (earlier ++ o :: later) = Overrides.resolve (earlier ++ os ++ later) := by
  cases name with
  | none =>
    obtain rfl : o = {} := h
    exact ⟨[], [], rfl, .nil, fun _ _ => by rw [List.append_nil, resolve_skip]⟩
  | some n =>
    obtain ⟨layer, hread, hgives⟩ := h
    refine ⟨[layer], [o], ?_, .cons hgives .nil, fun _ _ => by rw [List.append_cons]⟩
    rw [Option.toList_some, List.mapM_cons, hread]
    rfl

/-- The sources in their order are the usual files, the user's file, the file that was asked for,
and the variables; each of the files may be missing. Each setting is that of the last source that
sets it, or its default, whatever the sources say of the other settings. -/
theorem load_latest {plain hidden nested user asked environment : Overrides}
    (hplain : FileSays t "es-mappings.toml" plain)
    (hhidden : FileSays t ".es-mappings.toml" hidden)
    (hnested : FileSays t "config/es-mappings.toml" nested)
    (huser : (userFile? t env).elim (user = {}) fun name => FileSays t name user)
    (hasked : path.elim (asked = {}) fun name =>
      ∃ layer, requiredLayer t name = .ok layer ∧ layer.Says asked)
    (henvironment : (variableLayer env).Says environment) :
    load t env path =
      .ok (Overrides.resolve [plain, hidden, nested, user, asked, environment]) := by
  obtain ⟨plainLayer, hplain, hplainSays⟩ := hplain.exists_layer
  obtain ⟨hiddenLayer, hhidden, hhiddenSays⟩ := hhidden.exists_layer
  obtain ⟨nestedLayer, hnested, hnestedSays⟩ := hnested.exists_layer
  have husual : localFiles.mapM (optionalLayer t) =
      .ok [plainLayer, hiddenLayer, nestedLayer] := by
    simp only [localFiles, List.mapM_cons, List.mapM_nil, hplain, hhidden, hnested]
    rfl
  have huser : (userFile? t env).elim (user = {}) fun name =>
      ∃ layer, optionalLayer t name = .ok layer ∧ layer.Says user := by
    cases hname : userFile? t env with
    | none => rwa [hname] at huser
    | some name =>
      rw [hname] at huser
      exact FileSays.exists_layer huser
  obtain ⟨userLayers, users, huser, huserSays, hskipUser⟩ := exists_layers huser
  obtain ⟨askedLayers, askeds, hasked, haskedSays, hskipAsked⟩ := exists_layers hasked
  have hlayers : layers t env path = .ok ([plainLayer, hiddenLayer, nestedLayer] ++ userLayers ++
      askedLayers ++ [variableLayer env]) := by
    rw [layers, husual, huser, hasked]
    rfl
  have husualSays : List.Forall₂ Layer.Says [plainLayer, hiddenLayer, nestedLayer]
      [plain, hidden, nested] := .cons hplainSays (.cons hhiddenSays (.cons hnestedSays .nil))
  have hgives := List.rel_append (List.rel_append (List.rel_append husualSays huserSays) haskedSays)
    (.cons henvironment .nil)
  rw [load, hlayers]
  refine (ofValue_stack hgives).trans ?_
  rw [← hskipAsked, ← hskipUser]
  rfl

/-! ### Three sources together -/

theorem fetch_of_resolve {f : FileFormat} {place : List String} {text : String}
    (hresolve : t.resolve (absolutePath t name) = .ok (place, .file (Text.Utf8.encode text)))
    (hformat :
      FileFormat.ofExtension? ((Files.Path.extension? (absolutePath t name)).getD "") = some f) :
    fetch t name = .ok (relativePath t (absolutePath t name), f, text) := by
  have hfile : t.isFile (absolutePath t name) := FileTree.isFile_iff.2 ⟨place, _, hresolve⟩
  have hfind : findFile t name = .ok (absolutePath t name, f) := by
    simp only [findFile, hfile, hformat, if_true]
  have htext : t.readText (absolutePath t name) = .ok text := by
    simp only [FileTree.readText, FileTree.readBytes, hresolve, Text.Utf8.decode?_encode]
  unfold fetch
  rw [hfind, ok_bind]
  simp only [htext]

def plainText : String := "[compiler]\ntag_key = \"search\"\nformat = \"compact\"\n"

def askedText : String := "[Compiler]\nTAG_KEY = \"mapped\"\n"

/-- One of the usual files, and another file. -/
def twoFiles : FileTree where
  root := [("es-mappings.toml", .file (Text.Utf8.encode plainText)),
    ("x.toml", .file (Text.Utf8.encode askedText))]
  work := []
  workText := "/"

def twoVariables : Environment :=
  [("ES_MAPPINGS__INPUT__ALL_TYPES", "yes"), ("es_mappings__compiler__format", "Pretty")]

theorem fetch_plain :
    fetch twoFiles "es-mappings.toml" = .ok ("es-mappings.toml", .toml, plainText) := by
  have hresolve : twoFiles.resolve (absolutePath twoFiles "es-mappings.toml") =
      .ok (["es-mappings.toml"], .file (Text.Utf8.encode plainText)) :=
    FileTree.resolve_absolute ⟨by decide, by decide, by decide⟩ (by decide) (by decide) (by decide)
      rfl (by simp)
  exact fetch_of_resolve hresolve (by decide)

theorem fetch_asked : fetch twoFiles "x.toml" = .ok ("x.toml", .toml, askedText) := by
  have hresolve : twoFiles.resolve (absolutePath twoFiles "x.toml") =
      .ok (["x.toml"], .file (Text.Utf8.encode askedText)) :=
    FileTree.resolve_absolute ⟨by decide, by decide, by decide⟩ (by decide) (by decide) (by decide)
      rfl (by simp)
  exact fetch_of_resolve hresolve (by decide)

/-- The file that was asked for sets the tag key alone and keeps the format, which a variable then
changes. -/
theorem load_two_files : load twoFiles twoVariables (some "x.toml") =
    .ok ⟨⟨"mapped", .pretty⟩, ⟨true, "types.json"⟩, ⟨"_es_mapper.json"⟩⟩ := by
  have hmissing : ∀ name ∈ [".es-mappings.toml", "config/es-mappings.toml"],
      ∀ path ∈ candidates twoFiles name, startsMissing twoFiles path := by decide
  have hnothing : ∀ name ∈ [".es-mappings.toml", "config/es-mappings.toml"],
      FileSays twoFiles name {} := fun name hname => .missing (fetch_of_missing fun path hpath =>
    isFile_of_startsMissing rfl (hmissing name hname path hpath))
  obtain ⟨plainLayer, hread, hgives⟩ : ∃ layer,
      readLayer ("es-mappings.toml", .toml, plainText) = .ok layer ∧
        layer.Says { tagKey := "search", format := some .compact } := by decide +kernel
  have huser : (userFile? twoFiles twoVariables).elim (({} : Overrides) = {}) fun name =>
      FileSays twoFiles name {} := by
    have hnone : userFile? twoFiles twoVariables = none := rfl
    rw [hnone]
    rfl
  have hasked : (some "x.toml").elim (({ tagKey := "mapped" } : Overrides) = {}) fun name =>
      ∃ layer, requiredLayer twoFiles name = .ok layer ∧ layer.Says { tagKey := "mapped" } := by
    rw [Option.elim_some, requiredLayer, fetch_asked, ok_bind]
    decide +kernel
  have hvariables : (variableLayer twoVariables).Says
      { allTypes := some true, format := some .pretty } := by decide +kernel
  exact load_latest (.there fetch_plain hread hgives) (hnothing _ (by simp))
    (hnothing _ (by simp)) huser hasked hvariables

end IndexMapping.Settings
