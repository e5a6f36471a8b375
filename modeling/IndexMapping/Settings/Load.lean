import IndexMapping.Settings.Basic
import IndexMapping.Settings.Layer

/-! Loading the settings from their layers: the files in the usual places, the file that was
asked for, and the variables. -/

namespace IndexMapping.Settings

open Files (FileTree)

/-! ### From a value -/

/-- The value of a setting. -/
def convert {α : Type} (f : Value → Option α) (shown : Value → Value) (expected key : String)
    (v : Value) : Except LoadError α :=
  match f v with
  | some x => .ok x
  | none => .error (.mistyped (shown v) expected key)

def toText (key : String) (v : Value) : Except LoadError String :=
  convert Value.text? id "a string" key v

def toFlag (key : String) (v : Value) : Except LoadError Bool :=
  convert Value.flag? Value.asWord "a boolean" key v

def toFormat (_key : String) (v : Value) : Except LoadError OutputFormat :=
  match v.alternative? with
  | none => .error (.notAnAlternative "OutputFormat")
  | some name =>
    match [OutputFormat.pretty, .compact].find? fun f => f.name = Text.lower name with
    | some f => .ok f
    | none => .error (.unknownAlternative "OutputFormat" name)

/-- The settings of a group: a table with a key for each, or an array with an element for each. -/
inductive Group where
  | keys (entries : List (String × Value))
  | elements (items : List Value)

namespace Group

/-- The group that a value holds. -/
def ofValue (expected : String) : Value → Except LoadError Group
  | .table _ es => .ok (keys es)
  | .array _ xs => .ok (elements xs)
  | .scalar o s => .error (.notAGroup (.scalar o s) expected)

/-- A setting, with the key that messages name, if the group has it. -/
def setting? (group name : String) (place : Nat) : Group → Option (String × Value)
  | keys es => (es.lookup name).map fun v => (group ++ "." ++ name, v)
  | elements xs => xs[place]?.map fun v => (s!"{group}[{place}]", v)

/-- A setting, or its default. -/
def settingOr {α : Type} (read : String → Value → Except LoadError α) (default : α)
    (group name : String) (place : Nat) (g : Group) : Except LoadError α :=
  match g.setting? group name place with
  | some (key, v) => read key v
  | none => .ok default

end Group

def toCompiler (v : Value) : Except LoadError CompilerSettings := do
  let d : CompilerSettings := {}
  let g ← Group.ofValue "struct CompilerConfig" v
  let tagKey ← g.settingOr toText d.tagKey "compiler" "tag_key" 0
  let format ← g.settingOr toFormat d.format "compiler" "format" 1
  .ok ⟨tagKey, format⟩

def toInput (v : Value) : Except LoadError InputSettings := do
  let d : InputSettings := {}
  let g ← Group.ofValue "struct InputConfig" v
  let allTypes ← g.settingOr toFlag d.allTypes "input" "all_types" 0
  let extension ← g.settingOr toText d.extension "input" "extension" 1
  .ok ⟨allTypes, extension⟩

def toOutput (v : Value) : Except LoadError OutputSettings := do
  let d : OutputSettings := {}
  let g ← Group.ofValue "struct OutputConfig" v
  let fileSuffix ← g.settingOr toText d.fileSuffix "output" "file_suffix" 0
  .ok ⟨fileSuffix⟩

/-- A group of settings, or its defaults. -/
def groupOr {α : Type} (read : Value → Except LoadError α) (default : α) (name : String)
    (v : Value) : Except LoadError α :=
  match v.entries.lookup name with
  | some w => read w
  | none => .ok default

/-- The settings that a table holds. Keys that are no settings do not count. -/
def ofValue (v : Value) : Except LoadError Settings := do
  let compiler ← groupOr toCompiler {} "compiler" v
  let input ← groupOr toInput {} "input" v
  let output ← groupOr toOutput {} "output" v
  .ok ⟨compiler, input, output⟩

/-! ### From everywhere -/

/-- Where settings are looked for in the working directory, the lowest layer first. -/
def localFiles : List String := ["es-mappings.toml", ".es-mappings.toml", "config/es-mappings.toml"]

/-- The directory of the user's settings. -/
def userDirectory? (env : Environment) : Option String :=
  match (env.lookup "XDG_CONFIG_HOME").filter Files.Path.isAbsolute with
  | some d => some d
  | none => ((env.lookup "HOME").filter (· ≠ "")).map fun d => Files.Path.join d ".config"

/-- Where the settings of this program are in that directory. -/
def userFile : String := "es-mappings/es-mappings.toml"

/-- The user's own settings file, if it is there. -/
def userFile? (t : FileTree) (env : Environment) : Option String :=
  ((userDirectory? env).map (Files.Path.join · userFile)).filter t.isThere

/-- The layers, lowest first: the usual files, the user's file, the file that was asked for, and
the variables. -/
def layers (t : FileTree) (env : Environment) (path : Option String) :
    Except LoadError (List Layer) := do
  let usual ← localFiles.mapM (optionalLayer t)
  let user ← (userFile? t env).toList.mapM (optionalLayer t)
  let asked ← path.toList.mapM (requiredLayer t)
  .ok (usual ++ user ++ asked ++ [variableLayer env])

/-- The settings that apply. -/
def load (t : FileTree) (env : Environment) (path : Option String) : Except LoadError Settings := do
  let ls ← layers t env path
  ofValue (stack ls)

end IndexMapping.Settings
