import IndexMapping.Settings.Basic
import IndexMapping.Toml.Document

/-! Settings as a TOML document: one table for each group, all keys written. -/

namespace IndexMapping.Settings

/-! ### Writing -/

/-- A line that sets a key. -/
def assignment (key : String) (value : List Char) : List Char :=
  key.toList ++ [' ', '=', ' '] ++ value ++ ['\n']

/-- A table and its lines. -/
def group (name : String) (lines : List (List Char)) : List Char :=
  '[' :: name.toList ++ [']', '\n'] ++ lines.flatten

def writeBool (b : Bool) : List Char := (if b then "true" else "false").toList

/-- The document that holds the settings. -/
def toToml (s : Settings) : String :=
  String.ofList (
    group "compiler" [assignment "tag_key" (Toml.writeString s.compiler.tagKey),
      assignment "format" (Toml.writeString s.compiler.format.name)] ++ ['\n'] ++
    group "input" [assignment "all_types" (writeBool s.input.allTypes),
      assignment "extension" (Toml.writeString s.input.extension)] ++ ['\n'] ++
    group "output" [assignment "file_suffix" (Toml.writeString s.output.fileSuffix)])

/-! ### Reading -/

/-- The value of a key, of the right type, or the default. -/
def keyOr {α : Type} (read : Toml → Option α) (default : α) (key : String)
    (entries : List (String × Toml)) : Option α :=
  match entries.lookup key with
  | none => some default
  | some v => read v

def readText : Toml → Option String
  | .string s => some s
  | _ => none

def readFlag : Toml → Option Bool
  | .bool b => some b
  | _ => none

def readFormat (v : Toml) : Option OutputFormat :=
  (readText v).bind fun s =>
    if s = OutputFormat.pretty.name then some .pretty
    else if s = OutputFormat.compact.name then some .compact
    else none

/-- The settings that a table holds. -/
def readTable {α : Type} (read : List (String × Toml) → Option α) : Toml → Option α
  | .table entries => read entries
  | _ => none

def readCompiler (entries : List (String × Toml)) : Option CompilerSettings := do
  let d : CompilerSettings := {}
  let tagKey ← keyOr readText d.tagKey "tag_key" entries
  let format ← keyOr readFormat d.format "format" entries
  some ⟨tagKey, format⟩

def readInput (entries : List (String × Toml)) : Option InputSettings := do
  let d : InputSettings := {}
  let allTypes ← keyOr readFlag d.allTypes "all_types" entries
  let extension ← keyOr readText d.extension "extension" entries
  some ⟨allTypes, extension⟩

def readOutput (entries : List (String × Toml)) : Option OutputSettings := do
  let d : OutputSettings := {}
  let fileSuffix ← keyOr readText d.fileSuffix "file_suffix" entries
  some ⟨fileSuffix⟩

/-- The settings that a document holds; what it leaves out has its default. -/
def ofToml? (text : String) : Option Settings := do
  let entries ← Toml.parse? text
  let compiler ← keyOr (readTable readCompiler) {} "compiler" entries
  let input ← keyOr (readTable readInput) {} "input" entries
  let output ← keyOr (readTable readOutput) {} "output" entries
  some ⟨compiler, input, output⟩

end IndexMapping.Settings
