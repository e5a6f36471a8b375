import IndexMapping.Cli.Program
import IndexMapping.Package.Generate
import IndexMapping.Settings.Load

/-! The program that writes the mappings document of each input. -/

namespace IndexMapping.Cli

open Files (FileTree)

structure GenerateCommand where
  inputs : List String
  /-- Compile every type, not only annotated ones. -/
  all : Bool
  /-- Leave the document without white space. -/
  compact : Bool
  options : GenerateOptions
  /-- The settings file that was asked for. -/
  config : Option String

namespace GenerateCommand

def about : About where
  name := "es-mappings"
  version := "0.1.0"
  purpose := "Generate Elasticsearch mappings from tagged type descriptors"
  usage := "es-mappings [OPTIONS] <INPUTS>..."
  details := "Arguments:
  <INPUTS>...  Descriptor files or package directories

Options:
      --all                       Generate mappings for all types in a file, not only annotated ones
      --type <NAME>               Generate mappings for the named types only (repeatable)
      --output-filename <OUTPUT>  Specify the filename of the output
      --pkg                       Process the whole package instead of just the given file
      --nofmt                     Skip final formatting of the json file
      --debug                     Trace types and generated fragments to stderr
  -c, --config <CONFIG>           Config file (defaults to es-mappings.toml lookup)
  -h, --help                      Print help
  -V, --version                   Print version
"

def form : Form where
  options := [
    ⟨"all", none, .flag⟩,
    ⟨"type", none, .value true true⟩,
    ⟨"output-filename", none, .value false false⟩,
    ⟨"pkg", none, .flag⟩,
    ⟨"nofmt", none, .flag⟩,
    ⟨"debug", none, .flag⟩,
    ⟨"config", some 'c', .value true false⟩,
    ⟨"help", some 'h', .help⟩,
    ⟨"version", some 'V', .version⟩]
  fewest := 1
  most := none

def ofItems (items : List Item) : GenerateCommand where
  inputs := operandsOf items
  all := hasFlag "all" items
  compact := hasFlag "nofmt" items
  options :=
    ⟨valuesOf "type" items, hasFlag "pkg" items, (valuesOf "output-filename" items).head?⟩
  config := (valuesOf "config" items).head?

/-- The settings with what the arguments change in them. -/
def adjust (c : GenerateCommand) (s : Settings) : Settings :=
  { s with
    input := if c.all then { s.input with allTypes := true } else s.input
    compiler := if c.compact then { s.compiler with format := .compact } else s.compiler }

/-- Generates and writes the documents of the inputs in turn, up to the first that fails. -/
def generateAll (s : Settings) (o : GenerateOptions) (t : FileTree) :
    List String → Except (String × Error) (List Generated) × FileTree
  | [] => (.ok [], t)
  | input :: inputs =>
    match generateToFile t s o input with
    | (.error e, t) => (.error (input, e), t)
    | (.ok g, t) =>
      match generateAll s o t inputs with
      | (.error e, t) => (.error e, t)
      | (.ok gs, t) => (.ok (g :: gs), t)

def run (c : GenerateCommand) (env : Settings.Environment) (t : FileTree) : Outcome :=
  match Settings.load t env c.config with
  | .error e =>
    { code := 1
      stderr := "Failed to load configuration: " ++ e.message ++ "\n"
      tree := t }
  | .ok s =>
    match generateAll (c.adjust s) c.options t c.inputs with
    | (.error (input, e), t) =>
      { code := 1
        stderr := "Error generating mappings for " ++ input ++ ": " ++ e.report ++ "\n"
        tree := t }
    | (.ok _, t) => { code := 0, tree := t }

/-- The paths that the program may look at. -/
def paths (c : GenerateCommand) (env : Settings.Environment) : List String :=
  Settings.localFiles ++
    ((Settings.userDirectory? env).map (Files.Path.join · Settings.userFile)).toList ++
    c.config.toList ++ c.inputs ++ c.options.outputFilename.toList

/-- The whole program. -/
def program : Program where
  about
  paths arguments env :=
    (form.read arguments).toOption.toList.flatMap fun items => (ofItems items).paths env
  start arguments env t :=
    match form.read arguments with
    | .error h => about.halt t h
    | .ok items => (ofItems items).run env t

end GenerateCommand

end IndexMapping.Cli
