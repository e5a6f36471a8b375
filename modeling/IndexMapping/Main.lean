import IndexMapping.Cli.CompareCommand
import IndexMapping.Cli.GenerateCommand

/-! The programs on a disk. The part of the disk that a program may look at is read into a tree,
the program is run on that tree, and the files that it wrote there are written to the disk. -/

namespace IndexMapping.Cli.Disk

open Files (FileTree)

/-- What is at a path: a link leads to the real place of its target. -/
def node? (path : String) : IO (Option Files.Node) := do
  try
    let p := (← IO.currentDir) / path
    match (← p.symlinkMetadata).type with
    | .dir => return some (.directory [])
    | .symlink => return some (.link (← IO.FS.realPath p).toString)
    | _ => return some (.file (← IO.FS.readBinFile p).toList)
  catch _ => return none

/-- Adds what is at a path, if its directory is in the tree. -/
def addNode (t : FileTree) (path : String) : IO FileTree := do
  match t.locate .bare path with
  | .ok (.absent d name) =>
    match ← node? path with
    | some n => return { t with root := Files.setAt name n t.root d }
    | none => return t
  | _ => return t

/-- A path and the directories above it, outermost first. -/
def wayTo (path : String) : List String := (FileTree.chain path.length path).reverse

/-- Adds what is on the way to a path, and on the way to the targets of links. -/
def addPath (t : FileTree) (path : String) : IO FileTree :=
  (wayTo path).foldlM (fun t p => do
    let t ← addNode t p
    match t.locate .bare p with
    | .ok (.found _ (.link target)) => (wayTo target).foldlM addNode t
    | _ => return t) t

/-- Adds a path and what lies directly in it. -/
def addEntries (t : FileTree) (path : String) : IO FileTree := do
  let t ← addPath t path
  if t.isDirectory path then
    let entries ← try ((← IO.currentDir) / path).readDir catch _ => pure #[]
    entries.foldlM (fun t e => addPath t (Files.Path.join path e.fileName)) t
  else return t

/-- The part of the disk that is at some paths and beside them. -/
def read (paths : List String) : IO FileTree := do
  let here := (← IO.currentDir).toString
  let t ← addPath ⟨[], Files.Path.names here, here⟩ here
  paths.foldlM (fun t p => do
    let t ← addEntries t (Files.Path.directory p)
    addEntries t p) t

/-- Writes the files that are new or have other contents. -/
def write (before after : FileTree) : IO Unit := do
  let old := Files.filesIn "/" before.root
  for (path, bytes) in Files.filesIn "/" after.root do
    unless old.contains (path, bytes) do
      IO.FS.createDirAll (Files.Path.directory path)
      IO.FS.writeBinFile path ⟨bytes.toArray⟩

/-- The variables of this process. -/
def environment : IO Settings.Environment := do
  try return .ofBytes (← IO.FS.readBinFile "/proc/self/environ").toList
  catch _ => return []

/-- Runs a program and prints what it leaves behind. -/
def run (p : Program) (arguments : List String) : IO UInt32 := do
  let env ← environment
  let tree ← read (p.paths arguments env)
  let o := p.start arguments env tree
  write tree o.tree
  IO.print o.stdout
  IO.eprint o.stderr
  return o.code.toUInt32

end IndexMapping.Cli.Disk

/-- The name under which the program is started decides which one it is. -/
def main (arguments : List String) : IO UInt32 := do
  let compare := IndexMapping.Cli.CompareCommand.program
  let name := (← IO.appPath).fileName.getD ""
  let p := if name = compare.about.name then compare else IndexMapping.Cli.GenerateCommand.program
  IndexMapping.Cli.Disk.run p arguments
