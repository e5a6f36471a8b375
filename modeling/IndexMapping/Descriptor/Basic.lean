import IndexMapping.SortedMap

/-! Descriptors of struct types, as an extractor reports them. A type has the identity
`package.Name`, or `Name` outside any package. -/

namespace IndexMapping

/-! ### Identities -/

structure TypeId where
  text : String
  deriving DecidableEq, Repr, Inhabited

namespace TypeId

/-- The identity of a type; an empty package is no package. -/
def ofName (package : Option String) (name : String) : TypeId :=
  match package with
  | some p => if p.isEmpty then ⟨name⟩ else ⟨p ++ "." ++ name⟩
  | none => ⟨name⟩

def isQualified (id : TypeId) : Bool := id.text.toList.any (· = '.')

/-- A bare reference is read within a package, a qualified one as it stands. -/
def qualify (id : TypeId) (package : Option String) : TypeId :=
  if id.isQualified then id else ofName package id.text

end TypeId

/-! ### Descriptors -/

/-- A field whose type is of the form `τ`. -/
structure FieldOf (τ : Type) where
  name : String
  type : τ
  /-- Raw tags by tag key. -/
  tags : SortedMap String

inductive FieldType where
  /-- A scalar, by the name of its source type. -/
  | scalar (source : String)
  | reference (id : TypeId)
  /-- A struct declared in place. -/
  | inline (fields : List (FieldOf FieldType))

abbrev Field := FieldOf FieldType

namespace FieldType

def isComposite : FieldType → Bool
  | scalar _ => false
  | _ => true

end FieldType

namespace FieldOf

/-- The raw tag under a key; an empty tag is no tag. -/
def tag? {τ : Type} (f : FieldOf τ) (key : String) : Option String :=
  (f.tags.get? key).filter fun raw => !raw.isEmpty

end FieldOf

structure TypeDescriptor where
  name : String
  package : Option String
  /-- Whether the declaration carries the generation marker. -/
  annotated : Bool
  fields : List Field

namespace TypeDescriptor

def id (d : TypeDescriptor) : TypeId := TypeId.ofName d.package d.name

end TypeDescriptor

/-- What one extractor output file holds. -/
structure DescriptorFile where
  package : Option String
  types : List TypeDescriptor

end IndexMapping
