import IndexMapping.Files.FileTree
import IndexMapping.Json.Reader
import IndexMapping.Settings.KeyPath
import IndexMapping.Settings.LoadError
import IndexMapping.Toml.Document
import IndexMapping.Toml.Reserved

/-! Layers of settings: what one file or the environment says, by key. -/

namespace IndexMapping.Settings

open Files (FileTree)

/-- The keys of one source with their values. Keys may be paths. -/
abbrev Layer := List (String × Value)

/-- Variables by name. -/
abbrev Environment := List (String × String)

/-- Later layers win, key by key. -/
def overlay (below : Value) (layer : Layer) : Value :=
  layer.foldl (fun v (key, value) => v.set (KeyPath.ofKey key) value) below

/-- All layers together, the first one lowest. -/
def stack (layers : List Layer) : Value := layers.foldl overlay .emptyTable

/-! ### Variables -/

/-- The variables of a block of bytes such as `NAME=text`, each closed by a zero. -/
def Environment.ofBytes (bytes : List UInt8) : Environment :=
  (bytes.splitOn 0).filterMap fun line =>
    (Text.Utf8.decode? line).bind fun s =>
      let name := s.toList.takeWhile (· ≠ '=')
      if name.isEmpty || name.length = s.length then none
      else some (String.ofList name, String.ofList (s.toList.drop (name.length + 1)))

/-- What the names of the variables start with, in lower case. -/
def variablePrefix : List Char := "es_mappings__".toList

/-- The path that is written with two underscores before each further key. -/
def dotted : List Char → List Char
  | '_' :: '_' :: cs => '.' :: dotted cs
  | c :: cs => c :: dotted cs
  | [] => []

/-- The key that a variable sets. -/
def variableKey? (name : String) : Option String :=
  let cs := (Text.lower name).toList
  if variablePrefix.isPrefixOf cs then some (String.ofList (dotted (cs.drop variablePrefix.length)))
  else none

/-- A sign with what follows it. -/
def splitSign : List Char → Bool × List Char
  | '+' :: cs => (false, cs)
  | '-' :: cs => (true, cs)
  | cs => (false, cs)

def wholeNumber? (cs : List Char) : Option Int :=
  let (negative, ds) := splitSign cs
  if ds.isEmpty || !ds.all KeyPath.isDigit then none
  else
    let n : Int := if negative then -(KeyPath.ofDigits ds : Int) else KeyPath.ofDigits ds
    if Decimal.fitsSigned n then some n else none

/-- Digits, a point among them or not, and an exponent or none. -/
def decimal? (negative : Bool) (cs : List Char) : Option Decimal.Real64 := do
  let mantissa := cs.takeWhile fun c => c ≠ 'e' && c ≠ 'E'
  let whole := mantissa.takeWhile (· ≠ '.')
  let fraction := mantissa.drop (whole.length + 1)
  let digits := whole ++ fraction
  let exponent ← match cs.drop mantissa.length with
    | [] => some 0
    | _ :: rest =>
      let (down, ds) := splitSign rest
      if ds.isEmpty || !ds.all KeyPath.isDigit then none
      else some (if down then -(KeyPath.ofDigits ds : Int) else (KeyPath.ofDigits ds : Int))
  if digits.isEmpty || !digits.all KeyPath.isDigit then none
  else some (.ofDecimal negative (KeyPath.ofDigits digits) (exponent - fraction.length))

def real? (cs : List Char) : Option Decimal.Real64 :=
  let (negative, rest) := splitSign cs
  let word := Text.asciiLower (String.ofList rest)
  if word = "inf" || word = "infinity" then some (.infinity negative)
  else if word = "nan" then some .nan
  else decimal? negative rest

/-- The text of a variable: a truth value in any case, a number, or a string. -/
def variableScalar (text : String) : Scalar :=
  let word := Text.lower text
  if word = "true" then .bool true
  else if word = "false" then .bool false
  else match wholeNumber? text.toList with
    | some n => .integer n
    | none => match real? text.toList with
      | some x => .float x
      | none => .string text

/-- The layer of the variables. -/
def variableLayer (env : Environment) : Layer :=
  env.filterMap fun (name, text) =>
    (variableKey? name).map fun key =>
      (key, .scalar (some "the environment") (variableScalar text))

/-! ### Files -/

/-- The formats of settings files. Files in YAML, RON, INI and JSON5 are not looked for and not
read. -/
inductive FileFormat where
  | toml
  | json
  deriving DecidableEq, Repr

namespace FileFormat

def extension : FileFormat → String
  | toml => "toml"
  | json => "json"

def all : List FileFormat := [toml, json]

/-- The format of files with an extension. -/
def ofExtension? (extension : String) : Option FileFormat :=
  all.find? fun f => f.extension = extension

/-- The layer that a text in a format holds. -/
def read (f : FileFormat) (origin text : String) : Except Malformation Layer :=
  match f with
  | toml => match (Toml.parse? text).bind fun es => Toml.settle? (.table es) with
    | some (.table es) => .ok (Value.ofTomlEntries (some origin) es)
    | some v => .error (.notATable (Value.ofToml (some origin) v))
    | none => .error .toml
  | json => match Json.parse text with
    | .ok (.object ms) => .ok (Value.ofJsonMembers (some origin) ms)
    | .ok v => .error (.notATable (Value.ofJson (some origin) v))
    | .error e => .error (.json e)

end FileFormat

/-- The names that lead from a directory to a path. -/
def relativeNames : List String → List String → List String
  | p :: ps, d :: ds =>
    if p = d then relativeNames ps ds else (d :: ds).map (fun _ => "..") ++ p :: ps
  | [], ds => ds.map fun _ => ".."
  | ps, [] => ps

/-- A path as it is seen from the working directory. -/
def relativePath (t : FileTree) (path : String) : String :=
  String.intercalate "/" (relativeNames (Files.Path.names path) t.work)

/-- A path from the topmost directory. -/
def absolutePath (t : FileTree) (path : String) : String :=
  Files.Path.join ("/" ++ String.intercalate "/" t.work) path

/-- The file that a name stands for: the file itself if it is there, else one with the extension
of a format added. -/
def findFile (t : FileTree) (name : String) : Except LoadError (String × FileFormat) :=
  let path := absolutePath t name
  if t.isFile path then
    match FileFormat.ofExtension? ((Files.Path.extension? path).getD "") with
    | some f => .ok (path, f)
    | none => .error (.unregistered (Files.Path.join t.workText name))
  else
    let candidates := FileFormat.all.filterMap fun f =>
      (Files.Path.appendExtension path f.extension).map fun p => (p, f)
    match candidates.find? fun (p, _) => t.isFile p with
    | some found => .ok found
    | none => .error (.notFound name)

/-- The file that a name stands for, its format and its text. -/
def fetch (t : FileTree) (name : String) : Except LoadError (String × FileFormat × String) := do
  let (path, format) ← findFile t name
  match t.readText path with
  | .error f => .error (.unreadable f)
  | .ok text => .ok (relativePath t path, format, text)

/-- The layer of a file that has been fetched. -/
def readLayer : String × FileFormat × String → Except LoadError Layer
  | (origin, format, text) => (format.read origin text).mapError (.malformed origin)

/-- The layer of a file that must be there. -/
def requiredLayer (t : FileTree) (name : String) : Except LoadError Layer :=
  fetch t name >>= readLayer

/-- The layer of a file that may be missing or be no text; then it says nothing. -/
def optionalLayer (t : FileTree) (name : String) : Except LoadError Layer :=
  match fetch t name with
  | .error _ => .ok []
  | .ok file => readLayer file

end IndexMapping.Settings
