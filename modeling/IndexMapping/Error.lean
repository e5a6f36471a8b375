import IndexMapping.Descriptor.Basic
import IndexMapping.Files.FileTree
import IndexMapping.Json.Failure

/-! The errors of mapping generation and of flattening, and their messages. -/

namespace IndexMapping

/-- The kinds of trees. -/
inductive TreeKind where
  | scalar
  | sequence
  | mapping
  deriving DecidableEq, Repr

def TreeKind.text : TreeKind → String
  | scalar => "a scalar"
  | sequence => "a sequence"
  | mapping => "a mapping"

/-- Why a descriptor file is refused. -/
inductive DescriptorFault where
  | unreadable (cause : Json.ReadError)
  | otherPackage (package declared : String)
  | wrongExtension (extension : String)
  deriving Repr

def DescriptorFault.message : DescriptorFault → String
  | unreadable e => e.message
  | otherPackage p q => "package " ++ Text.quote p ++ " does not match " ++ Text.quote q
  | wrongExtension e => "file name must end in '." ++ e ++ "'"

inductive Error where
  /-- A tag without a kind. -/
  | malformedTag (owner field tag : String)
  | keyNotString (path : String) (key : Json)
  | notAMapping (kind : TreeKind)
  | inaccessible (path : String) (fault : Files.Fault)
  /-- A compact document that cannot be laid out. -/
  | formatting (cause : Json.ReadError)
  | unknownType (id : TypeId)
  /-- A chain of references that ends in a type it has met before. -/
  | recursiveType (chain : List TypeId)
  | duplicateName (scope name : String)
  | invalidDescriptor (path : String) (fault : DescriptorFault)
  | io (fault : Files.Fault)
  | json (cause : Json.ReadError)
  deriving Repr

namespace Error

def message : Error → String
  | malformedTag owner field tag =>
    owner ++ "." ++ field ++
      ": es-mapping tags must specify a name and a type, e.g. `_id,keyword` (got " ++
      Text.quote tag ++ ")"
  | keyNotString path key => path ++ ": map key is not a string: " ++ key.compact
  | notAMapping kind => "Only a mapping can be flattened, got " ++ kind.text
  | inaccessible path fault => "Cannot access " ++ path ++ ": " ++ fault.message
  | formatting e => "Failed to format mappings document: " ++ e.message
  | unknownType id => "Unknown type: " ++ id.text
  | recursiveType chain =>
    "Recursive type cannot be expanded inline: " ++ String.intercalate " -> " (chain.map (·.text))
  | duplicateName scope name => "Duplicate mapping " ++ Text.quote name ++ " in " ++ scope
  | invalidDescriptor path fault => "Invalid descriptor file " ++ path ++ ": " ++ fault.message
  | io fault => "IO error: " ++ fault.message
  | json e => "JSON error: " ++ e.message

/-- What caused an error. -/
def cause? : Error → Option String
  | inaccessible _ fault => some fault.message
  | formatting e => some e.message
  | io fault => some fault.message
  | json e => some e.message
  | _ => none

/-- The message, followed by the cause even where the message tells it. -/
def report (e : Error) : String :=
  match e.cause? with
  | some c => e.message ++ ": " ++ c
  | none => e.message

end Error

end IndexMapping
