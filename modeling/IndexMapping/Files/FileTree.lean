import IndexMapping.Files.Path
import IndexMapping.Text.Utf8

/-! A tree of directories, files and symbolic links as a value, and what a program can ask of
it: following paths, listing, reading and writing. What the file system refuses is a fault. -/

namespace IndexMapping.Files

/-! ### Faults -/

inductive Fault where
  | notFound
  | alreadyExists
  | notDirectory
  | isDirectory
  | tooManyLinks
  /-- A name, or a whole path, of more bytes than there may be. -/
  | nameTooLong
  /-- A path with a zero byte. -/
  | zeroByte
  /-- A text file whose bytes are no text. -/
  | notText
  deriving DecidableEq, Repr

namespace Fault

def message : Fault → String
  | notFound => "No such file or directory (os error 2)"
  | alreadyExists => "File exists (os error 17)"
  | notDirectory => "Not a directory (os error 20)"
  | isDirectory => "Is a directory (os error 21)"
  | tooManyLinks => "Too many levels of symbolic links (os error 40)"
  | nameTooLong => "File name too long (os error 36)"
  | zeroByte => "file name contained an unexpected NUL byte"
  | notText => "stream did not contain valid UTF-8"

end Fault

/-! ### Trees -/

inductive Node where
  | file (bytes : List UInt8)
  | link (target : String)
  | directory (entries : List (String × Node))
  deriving Repr, Inhabited

structure FileTree where
  /-- The entries of the topmost directory. -/
  root : List (String × Node)
  /-- The directory from which relative paths start, outermost name first. -/
  work : List String
  /-- The path of that directory as messages show it. -/
  workText : String
  deriving Repr, Inhabited

/-- Entries by name. -/
def child? (name : String) : List (String × Node) → Option Node
  | [] => none
  | (n, x) :: rest => if n = name then some x else child? name rest

/-- Sets an entry in place, or adds it. -/
def setEntry (name : String) (node : Node) : List (String × Node) → List (String × Node)
  | [] => [(name, node)]
  | (n, x) :: rest => if n = name then (n, node) :: rest else (n, x) :: setEntry name node rest

/-- The entries of the directory at a place. -/
def entriesAt? (root : List (String × Node)) : List String → Option (List (String × Node))
  | [] => some root
  | d :: ds => match child? d root with
    | some (.directory es) => entriesAt? es ds
    | _ => none

/-- Sets an entry of the directory at a place. -/
def setAt (name : String) (node : Node) (root : List (String × Node)) :
    List String → List (String × Node)
  | [] => setEntry name node root
  | d :: ds => match child? d root with
    | some (.directory es) => setEntry d (.directory (setAt name node es ds)) root
    | _ => root

mutual

/-- The files in a directory with their paths, not following links. -/
def filesIn (above : String) : List (String × Node) → List (String × List UInt8)
  | [] => []
  | (name, node) :: rest => filesAt (Path.join above name) node ++ filesIn above rest

def filesAt (path : String) : Node → List (String × List UInt8)
  | .file bytes => [(path, bytes)]
  | .link _ => []
  | .directory es => filesIn path es

end

namespace FileTree

/-- The files below the working directory with their paths from there. -/
def files (t : FileTree) : List (String × List UInt8) :=
  filesIn "" ((entriesAt? t.root t.work).getD [])

/-- The files of the later tree that are new or have other contents, by path. -/
def written (before after : FileTree) : List (String × List UInt8) :=
  let old := before.files
  (after.files.filter fun f => !old.contains f).mergeSort fun a b => a.1 ≤ b.1

/-- Where a path leads. -/
inductive Place where
  | found (path : List String) (node : Node)
  /-- A name that a directory does not have. -/
  | absent (directory : List String) (name : String)
  deriving Repr

/-- How many links a path may lead through. -/
def linkLimit : Nat := 40

/-- How many bytes a name in a path may have. -/
def nameLimit : Nat := 255

/-- How many bytes a path may have. -/
def pathLimit : Nat := 4095

/-- What happens at the last name of a path. -/
inductive Ending where
  /-- A link there is not followed. -/
  | bare
  /-- A link there is followed. -/
  | followed
  /-- A link there is followed, and a file may be created: no slash may come after the name. -/
  | created
  deriving DecidableEq, Repr

/-- Follows names from a directory. -/
def walk (t : FileTree) (ending : Ending) (links : Nat) (here : List String)
    (names : List String) : Except Fault Place :=
  match names with
  | [] => match entriesAt? t.root here with
    | some es => .ok (.found here (.directory es))
    | none => .error .notFound
  | name :: rest =>
    if name = "" || name = "." then t.walk ending links here rest
    else if name = ".." then t.walk ending links here.dropLast rest
    else if ending = .created && rest ≠ [] && rest.all (· = "") then .error .isDirectory
    else if nameLimit < name.utf8ByteSize then .error .nameTooLong
    else match (entriesAt? t.root here).bind (child? name) with
      | none =>
        if rest = [] && (entriesAt? t.root here).isSome then .ok (.absent here name)
        else .error .notFound
      | some (.directory _) => t.walk ending links (here ++ [name]) rest
      | some (.file bytes) =>
        if rest = [] then .ok (.found (here ++ [name]) (.file bytes)) else .error .notDirectory
      | some (.link target) =>
        if rest = [] && ending = .bare then .ok (.found (here ++ [name]) (.link target))
        else match links with
          | 0 => .error .tooManyLinks
          | links + 1 =>
            t.walk ending links (if Path.isAbsolute target then [] else here)
              ((Path.pieces target).map (·.name) ++ rest)
termination_by (links, names.length)

/-- Where a path leads from the working directory. -/
def locate (t : FileTree) (ending : Ending) (path : String) : Except Fault Place :=
  if path.toList.contains '\x00' then .error .zeroByte
  else if path.isEmpty then .error .notFound
  else if pathLimit < path.utf8ByteSize then .error .nameTooLong
  else t.walk ending linkLimit (if Path.isAbsolute path then [] else t.work)
    ((Path.pieces path).map (·.name))

/-- What a path leads to, and where that really is. -/
def resolve (t : FileTree) (path : String) : Except Fault (List String × Node) :=
  match t.locate .followed path with
  | .error f => .error f
  | .ok (.absent _ _) => .error .notFound
  | .ok (.found p n) => .ok (p, n)

def isFile (t : FileTree) (path : String) : Bool :=
  match t.resolve path with
  | .ok (_, .file _) => true
  | _ => false

def isDirectory (t : FileTree) (path : String) : Bool :=
  match t.resolve path with
  | .ok (_, .directory _) => true
  | _ => false

def isThere (t : FileTree) (path : String) : Bool := (t.resolve path).isOk

/-- The place a path really leads to. -/
def canonical? (t : FileTree) (path : String) : Option (List String) :=
  match t.resolve path with
  | .ok (p, _) => some p
  | .error _ => none

/-- The names in a directory, in order. -/
def list (t : FileTree) (path : String) : Except Fault (List String) :=
  match t.resolve path with
  | .error f => .error f
  | .ok (_, .directory es) => .ok ((es.map (·.1)).mergeSort fun a b => a ≤ b)
  | .ok _ => .error .notDirectory

def readBytes (t : FileTree) (path : String) : Except Fault (List UInt8) :=
  match t.resolve path with
  | .error f => .error f
  | .ok (_, .file bytes) => .ok bytes
  | .ok _ => .error .isDirectory

def readText (t : FileTree) (path : String) : Except Fault String :=
  match t.readBytes path with
  | .error f => .error f
  | .ok bytes => match Text.Utf8.decode? bytes with
    | some s => .ok s
    | none => .error .notText

/-- Creates one directory. -/
def createDirectory (t : FileTree) (path : String) : Except Fault FileTree :=
  match t.locate .bare path with
  | .error f => .error f
  | .ok (.found _ _) => .error .alreadyExists
  | .ok (.absent d name) => .ok { t with root := setAt name (.directory []) t.root d }

/-- Creates a symbolic link. -/
def createLink (t : FileTree) (path target : String) : Except Fault FileTree :=
  match t.locate .bare path with
  | .error f => .error f
  | .ok (.found _ _) => .error .alreadyExists
  | .ok (.absent d name) => .ok { t with root := setAt name (.link target) t.root d }

/-- Creates a directory; the first path is that of the directory, each other one that of the
directory above it. -/
def createChain (t : FileTree) : List String → Except Fault FileTree
  | [] => .error .notFound
  | path :: above =>
    if path.isEmpty then .ok t
    else match t.createDirectory path with
      | .ok t => .ok t
      | .error .notFound =>
        match t.createChain above with
        | .error f => .error f
        | .ok t => match t.createDirectory path with
          | .ok t => .ok t
          | .error f => if t.isDirectory path then .ok t else .error f
      | .error f => if t.isDirectory path then .ok t else .error f

/-- A path and the directories above it, innermost first. -/
def chain : Nat → String → List String
  | 0, path => [path]
  | n + 1, path => match Path.parent? path with
    | none => [path]
    | some p => path :: chain n p

/-- Creates a directory and what is missing above it. -/
def createDirectories (t : FileTree) (path : String) : Except Fault FileTree :=
  t.createChain (chain path.length path)

/-- Writes a file, which may exist. -/
def write (t : FileTree) (path : String) (bytes : List UInt8) : Except Fault FileTree :=
  match t.locate .created path with
  | .error f => .error f
  | .ok (.found _ (.directory _)) => .error .isDirectory
  | .ok (.found _ (.link _)) => .error .tooManyLinks
  | .ok (.found p (.file _)) =>
    .ok { t with root := setAt (p.getLastD "") (.file bytes) t.root p.dropLast }
  | .ok (.absent d name) => .ok { t with root := setAt name (.file bytes) t.root d }

end FileTree

end IndexMapping.Files
