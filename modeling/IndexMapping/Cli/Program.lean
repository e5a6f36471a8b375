import IndexMapping.Cli.Arguments
import IndexMapping.Settings.Layer

/-! A program as a function from its arguments, the variables and the files to what it leaves
behind. -/

namespace IndexMapping.Cli

/-- What a program leaves behind when it ends. -/
structure Outcome where
  code : Nat
  stdout : String := ""
  stderr : String := ""
  /-- The files afterwards. -/
  tree : Files.FileTree

/-- How a program presents itself. -/
structure About where
  name : String
  version : String
  purpose : String
  usage : String
  /-- What each argument is for. -/
  details : String

namespace About

def help (a : About) : String := a.purpose ++ "\n\nUsage: " ++ a.usage ++ "\n\n" ++ a.details

/-- The outcome of a program that does not start. -/
def halt (a : About) (tree : Files.FileTree) : Halt → Outcome
  | .misuse =>
    { code := 2
      stderr := "error: invalid arguments\n\nUsage: " ++ a.usage ++
        "\n\nFor more information, try '--help'.\n"
      tree }
  | .help => { code := 0, stdout := a.help, tree }
  | .version => { code := 0, stdout := a.name ++ " " ++ a.version ++ "\n", tree }

end About

structure Program where
  about : About
  /-- The paths that the program may look at. -/
  paths : List String → Settings.Environment → List String
  start : List String → Settings.Environment → Files.FileTree → Outcome

end IndexMapping.Cli
