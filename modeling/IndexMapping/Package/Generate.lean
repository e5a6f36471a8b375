import IndexMapping.Package.Load
import IndexMapping.Schema.Worklist

/-! Generating the document of a package or of a descriptor file, and where it is written. -/

namespace IndexMapping

open Files (FileTree)

structure GenerateOptions where
  /-- Compile only these types. -/
  types : List String := []
  /-- Take a file for the package it is in. -/
  package : Bool := false
  /-- Where to write, if not to the derived path. -/
  outputFilename : Option String := none

structure Generated where
  output : String
  text : String
  /-- How many types were selected. -/
  typeCount : Nat

/-- Where the output of an input goes: a directory's into it under the package name, a file's
beside it under its stem. -/
def outputPath (t : FileTree) (s : Settings) (input package : String) : Except Error String :=
  if t.isDirectory input then
    .ok (Files.Path.join input (package ++ s.output.fileSuffix))
  else match Files.Path.stem? s.input.extension input with
    | some stem => .ok (Files.Path.withFileName input (stem ++ s.output.fileSuffix))
    | none => .error (.invalidDescriptor input (.wrongExtension s.input.extension))

/-- The input itself, or the directory of a file that stands for its package. -/
def packageInput (t : FileTree) (package : Bool) (input : String) : String :=
  if package && !t.isDirectory input then Files.Path.directory input else input

/-- The document of one input. -/
def generate (t : FileTree) (s : Settings) (o : GenerateOptions) (input : String) :
    Except Error Generated := do
  let input := packageInput t o.package input
  let package ← Package.load t s.input.extension input
  let selected ← package.select o.types s.input.allTypes
  let text ← (package.types.run s.compiler (selected.foldl Worklist.request .empty)).1
  let output ← match o.outputFilename with
    | some path => .ok path
    | none => outputPath t s input package.name
  .ok ⟨output, text, selected.length⟩

/-- Writes a document, creating the directories above it. Directories that were created stay
even if the file cannot be written. -/
def writeDocument (t : FileTree) (path text : String) : Except Files.Fault Unit × FileTree :=
  let made := match Files.Path.parent? path with
    | some p => t.createDirectories p
    | none => .ok t
  match made with
  | .error f => (.error f, t)
  | .ok t => match t.write path (Text.Utf8.encode text) with
    | .error f => (.error f, t)
    | .ok t => (.ok (), t)

/-- Generates the document of one input and writes it. -/
def generateToFile (t : FileTree) (s : Settings) (o : GenerateOptions) (input : String) :
    Except Error Generated × FileTree :=
  match generate t s o input with
  | .error e => (.error e, t)
  | .ok g => match writeDocument t g.output g.text with
    | (.error f, t) => (.error (.io f), t)
    | (.ok (), t) => (.ok g, t)

end IndexMapping
