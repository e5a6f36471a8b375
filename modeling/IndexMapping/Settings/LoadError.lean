import IndexMapping.Files.FileTree
import IndexMapping.Json.Failure
import IndexMapping.Settings.Value

/-! Why settings cannot be loaded. -/

namespace IndexMapping.Settings

/-- What is wrong with the text of a file. -/
inductive Malformation where
  | toml
  | json (cause : Json.ReadError)
  /-- A document that is not a table. -/
  | notATable (found : Value)
  deriving Repr

def Malformation.message : Malformation → String
  | toml => "invalid TOML document"
  | json e => e.message
  | notATable v => "invalid type: " ++ v.describeExact ++ ", expected a map" ++ v.place

inductive LoadError where
  | malformed (file : String) (cause : Malformation)
  /-- A value that cannot be converted to what its key takes. -/
  | mistyped (found : Value) (expected key : String)
  /-- A value that cannot hold a group of settings. -/
  | notAGroup (found : Value) (expected : String)
  /-- A name that is not among the alternatives of a type. -/
  | unknownAlternative (type name : String)
  /-- A value that names no alternative. -/
  | notAnAlternative (type : String)
  | unregistered (file : String)
  | notFound (file : String)
  | unreadable (fault : Files.Fault)
  deriving Repr

namespace LoadError

def message : LoadError → String
  | malformed file cause => cause.message ++ " in " ++ file
  | mistyped found expected key =>
    "invalid type: " ++ found.describeExact ++ ", expected " ++ expected ++
      " for key `" ++ key ++ "`" ++ found.place
  | notAGroup found expected => "invalid type: " ++ found.describe ++ ", expected " ++ expected
  | unknownAlternative type name => "enum " ++ type ++ " does not have variant constructor " ++ name
  | notAnAlternative type =>
    "value of enum " ++ type ++
      " should be represented by either string or table with exactly one key"
  | unregistered file => "configuration file \"" ++ file ++ "\" is not of a registered file format"
  | notFound file => "configuration file \"" ++ file ++ "\" not found"
  | unreadable fault => fault.message

end LoadError

end IndexMapping.Settings
