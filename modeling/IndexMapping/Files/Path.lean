/-! Paths as texts: their components, their last name and their parent. -/

namespace IndexMapping.Files.Path

/-- A stretch of a path between slashes, with the number of characters up to its end. -/
structure Piece where
  name : String
  stop : Nat
  deriving DecidableEq, Repr

/-- The pieces of a path; `name` holds the characters of the current piece, newest first. -/
def split (name : List Char) (index : Nat) : List Char → List Piece
  | [] => [⟨String.ofList name.reverse, index⟩]
  | c :: cs =>
    if c = '/' then ⟨String.ofList name.reverse, index⟩ :: split [] (index + 1) cs
    else split (c :: name) (index + 1) cs

def pieces (path : String) : List Piece := split [] 0 path.toList

def isAbsolute (path : String) : Bool := path.toList.head? = some '/'

/-- The names in a path. Empty pieces do not count, and a dot counts only at the start. -/
def parts (path : String) : List Piece :=
  match pieces path with
  | [] => []
  | p :: ps =>
    (if p.name = "" then [] else [p]) ++ ps.filter fun q => q.name ≠ "" && q.name ≠ "."

/-- The name a path ends in, unless that is a dot or two. -/
def fileName? (path : String) : Option String :=
  match (parts path).getLast? with
  | some p => if p.name = "." || p.name = ".." then none else some p.name
  | none => none

/-- The path without its last name. -/
def parent? (path : String) : Option String :=
  match (parts path).reverse with
  | [] => none
  | [_] => some (if isAbsolute path then "/" else "")
  | _ :: p :: _ => some (String.ofList (path.toList.take p.stop))

/-- The directory a file is in. -/
def directory (path : String) : String :=
  match parent? path with
  | some p => if p.isEmpty then "." else p
  | none => "."

/-- A path within a directory; an absolute path stays as it is. -/
def join (directory path : String) : String :=
  if isAbsolute path || directory.isEmpty then path
  else if directory.toList.getLast? = some '/' then directory ++ path
  else directory ++ "/" ++ path

/-- The path with another last name. -/
def withFileName (path name : String) : String :=
  match fileName? path, parent? path with
  | some _, some p => join p name
  | _, _ => join path name

/-- The path with `.extension` after its last name. -/
def appendExtension (path extension : String) : Option String :=
  match fileName? path, (parts path).getLast? with
  | some _, some p => some (String.ofList (path.toList.take p.stop) ++ "." ++ extension)
  | _, _ => none

/-- What follows the last dot of a name, unless the name starts with it. -/
def extension? (path : String) : Option String := do
  let name ← fileName? path
  let after := name.toList.reverse.takeWhile (· ≠ '.')
  if after.length + 1 < name.length then some (String.ofList after.reverse) else none

/-- The names in a path, as the comparison of paths takes them. -/
def names (path : String) : List String := (parts path).map (·.name)

/-- Whether two paths have the same names. -/
def same (a b : String) : Bool := isAbsolute a == isAbsolute b && names a == names b

/-- The name without the extension and its dot, if it has them. -/
def stem? (extension path : String) : Option String := do
  let name ← fileName? path
  let ending := ("." ++ extension).toList
  let cs := name.toList
  if ending.length < cs.length && cs.drop (cs.length - ending.length) = ending then
    some (String.ofList (cs.take (cs.length - ending.length)))
  else none

end IndexMapping.Files.Path
