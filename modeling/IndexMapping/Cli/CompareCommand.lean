import IndexMapping.Cli.Program
import IndexMapping.Flat.Comparison
import IndexMapping.Json.Reader

/-! The program that compares two documents. Its code says whether they are equal. -/

namespace IndexMapping.Cli

open Files (FileTree)

structure CompareCommand where
  expected : String
  actual : String
  /-- Compare the elements of arrays one by one. -/
  sequences : Bool
  format : String

namespace CompareCommand

def about : About where
  name := "es-mapping-diff"
  version := "0.1.0"
  purpose := "Compare two mappings documents independent of key order"
  usage := "es-mapping-diff [OPTIONS] <EXPECTED> <ACTUAL>"
  details := "Arguments:
  <EXPECTED>  Expected document
  <ACTUAL>    Actual document

Options:
      --flatten-arrays   Compare array elements individually instead of whole arrays
  -f, --format <FORMAT>  Output format (text, json) [default: text]
  -h, --help             Print help
"

def form : Form where
  options := [
    ⟨"flatten-arrays", none, .flag⟩,
    ⟨"format", some 'f', .value true false⟩,
    ⟨"help", some 'h', .help⟩]
  fewest := 2
  most := some 2

def ofItems (items : List Item) : CompareCommand :=
  let operands := operandsOf items
  ⟨operands.getD 0 "", operands.getD 1 "", hasFlag "flatten-arrays" items,
    (valuesOf "format" items).headD "text"⟩

/-- Why no comparison is made. -/
inductive Problem where
  | unreadable (path : String) (fault : Files.Fault)
  | unparsable (path : String) (cause : Json.ReadError)
  | incomparable (cause : Error)

def Problem.message : Problem → String
  | unreadable path fault => "Failed to read " ++ path ++ ": " ++ fault.message
  | unparsable path cause => "Failed to parse JSON in " ++ path ++ ": " ++ cause.message
  | incomparable e => e.report

def readDocument (t : FileTree) (path : String) : Except Problem Json :=
  match t.readText path with
  | .error f => .error (.unreadable path f)
  | .ok text => (Json.parse text).mapError (.unparsable path)

/-- Whether the documents are equal, and what is printed about that. -/
def report (c : CompareCommand) (t : FileTree) : Except Problem (Bool × String) := do
  let expected ← readDocument t c.expected
  let actual ← readDocument t c.actual
  let comparison ← (Json.compare c.sequences expected actual).mapError .incomparable
  if c.format = "json" then
    .ok (comparison.isEqual, comparison.encode.indented "  " ++ "\n")
  else if comparison.isEqual then
    .ok (true, comparison.summary ++ "\n")
  else
    let diff ← (Json.diff c.sequences expected actual).mapError .incomparable
    .ok (false, diff ++ comparison.summary ++ "\n")

def run (c : CompareCommand) (t : FileTree) : Outcome :=
  match c.report t with
  | .error p => { code := 2, stderr := p.message ++ "\n", tree := t }
  | .ok (equal, text) => { code := if equal then 0 else 1, stdout := text, tree := t }

/-- The paths that the program may look at. -/
def paths (c : CompareCommand) : List String := [c.expected, c.actual]

/-- The whole program. -/
def program : Program where
  about
  paths arguments _ :=
    (form.read arguments).toOption.toList.flatMap fun items => (ofItems items).paths
  start arguments _ t :=
    match form.read arguments with
    | .error h => about.halt t h
    | .ok items => (ofItems items).run t

end CompareCommand

end IndexMapping.Cli
