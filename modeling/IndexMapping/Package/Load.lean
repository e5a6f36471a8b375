import IndexMapping.Descriptor.Codec
import IndexMapping.Descriptor.TypeSet
import IndexMapping.Files.FileTree

/-! Loading a package. A directory is one package: all descriptor files directly in it. A
single file is loaded together with its siblings, but only its own types are offered for
compilation. -/

namespace IndexMapping

open Files (FileTree)

/-- A descriptor file that has been read. -/
structure SourceFile where
  path : String
  contents : DescriptorFile

structure Package where
  /-- The declared name, or that of the directory. -/
  name : String
  types : TypeSet
  /-- The types that the requested input declares, in order. -/
  roots : List TypeId

namespace Package

/-! ### From parsed files -/

/-- The package that the files declare. Files without a package join it. -/
def declared (first : Option String) : List SourceFile → Except Error (Option String)
  | [] => .ok first
  | f :: fs => match f.contents.package, first with
    | none, _ => declared first fs
    | some p, none => declared (some p) fs
    | some p, some q =>
      if p = q then declared first fs else .error (.invalidDescriptor f.path (.otherPackage p q))

/-- A descriptor without a package joins the declared one. -/
def joined (package : Option String) (d : TypeDescriptor) : TypeDescriptor :=
  match d.package with
  | some _ => d
  | none => { d with package }

/-- Adds types to a set; gives the identities of those added. -/
def insertTypes (package : Option String) (s : TypeSet) :
    List TypeDescriptor → Except Error (List TypeId × TypeSet)
  | [] => .ok ([], s)
  | d :: ds => do
    let (id, s) ← s.insert (joined package d)
    let (ids, s) ← insertTypes package s ds
    .ok (id :: ids, s)

/-- Adds the types of each file in turn; gives the identities by file. -/
def insertFiles (package : Option String) (s : TypeSet) :
    List SourceFile → Except Error (List (List TypeId) × TypeSet)
  | [] => .ok ([], s)
  | f :: fs => do
    let (ids, s) ← insertTypes package s f.contents.types
    let (rest, s) ← insertFiles package s fs
    .ok (ids :: rest, s)

/-- The package that some files make; `fallback` names it if no file does, and `choose` picks
the roots from the types of each file. -/
def assemble (fallback : String) (choose : List (List TypeId) → List TypeId)
    (files : List SourceFile) : Except Error Package := do
  let package ← declared none files
  let (ids, types) ← insertFiles package .empty files
  .ok ⟨package.getD fallback, types, choose ids⟩

/-! ### From a file tree -/

/-- Files with the descriptor extension directly in a directory, by name. There are none in a
file. -/
def descriptorFiles (t : FileTree) (extension directory : String) : Except Error (List String) :=
  if t.isFile directory then .ok []
  else match t.list directory with
  | .error f => .error (.inaccessible directory f)
  | .ok names =>
    .ok ((names.map (Files.Path.join directory)).filter fun p =>
      t.isFile p && (Files.Path.stem? extension p).isSome)

def readDescriptor (t : FileTree) (path : String) : Except Error SourceFile :=
  match t.readText path with
  | .error f => .error (.inaccessible path f)
  | .ok text => match DescriptorFile.parse text with
    | .error e => .error (.invalidDescriptor path (.unreadable e))
    | .ok contents => .ok ⟨path, contents⟩

/-- The name of a directory, once links and dots are followed. -/
def directoryName (t : FileTree) (directory : String) : String :=
  match (t.canonical? directory).bind (·.getLast?) with
  | some name => name
  | none => (Files.Path.fileName? directory).getD ""

/-- Whether two paths lead to one file. -/
def sameFile (t : FileTree) (a b : String) : Bool :=
  match t.canonical? a, t.canonical? b with
  | some p, some q => p = q
  | _, _ => Files.Path.same a b

/-- All descriptor files directly in a directory. -/
def loadDirectory (t : FileTree) (extension directory : String) : Except Error Package := do
  let paths ← descriptorFiles t extension directory
  let files ← paths.mapM (readDescriptor t)
  assemble (directoryName t directory) List.flatten files

/-- One descriptor file, read after its siblings. -/
def loadFile (t : FileTree) (extension path : String) : Except Error Package := do
  if (Files.Path.stem? extension path).isNone then
    .error (.invalidDescriptor path (.wrongExtension extension))
  else
    let directory := Files.Path.directory path
    let paths ← descriptorFiles t extension directory
    let siblings ← (paths.filter fun p => !sameFile t p path).mapM (readDescriptor t)
    let file ← readDescriptor t path
    assemble (directoryName t directory) (·.getLastD []) (siblings ++ [file])

/-- A descriptor file or a package directory. -/
def load (t : FileTree) (extension path : String) : Except Error Package :=
  match t.resolve path with
  | .error f => .error (.inaccessible path f)
  | .ok (_, .directory _) => loadDirectory t extension path
  | .ok _ => loadFile t extension path

/-! ### Selection -/

/-- The root with a name. -/
def rootNamed? (p : Package) (name : String) : Option TypeId :=
  p.roots.find? fun id => (p.types.get? id).any fun d => d.name = name

/-- The types to compile: the named ones if there are names, else all roots or the annotated
ones. -/
def select (p : Package) (names : List String) (all : Bool) : Except Error (List TypeId) :=
  if names.isEmpty then
    .ok (p.roots.filter fun id => all || (p.types.get? id).any (·.annotated))
  else names.mapM fun name => match p.rootNamed? name with
    | some id => .ok id
    | none => .error (.unknownType ⟨name⟩)

end Package

end IndexMapping
