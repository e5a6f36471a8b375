import IndexMapping.Descriptor.Basic
import IndexMapping.Error

/-! Sets of descriptors in the order in which they were inserted. The bare references of a
descriptor are read within its package when it is inserted. -/

namespace IndexMapping

/-! ### References within a package -/

mutual

/-- Qualifies the bare references of a type, at any inline depth. -/
def FieldType.qualify (package : Option String) : FieldType → FieldType
  | .scalar s => .scalar s
  | .reference id => .reference (id.qualify package)
  | .inline fs => .inline (FieldType.qualifyFields package fs)

def FieldType.qualifyFields (package : Option String) : List Field → List Field
  | [] => []
  | ⟨name, type, tags⟩ :: fs =>
    ⟨name, type.qualify package, tags⟩ :: FieldType.qualifyFields package fs

end

/-- The descriptor with its bare references read within its package. -/
def TypeDescriptor.qualified (d : TypeDescriptor) : TypeDescriptor :=
  { d with fields := FieldType.qualifyFields d.package d.fields }

/-! ### Sets -/

structure TypeSet where
  types : List TypeDescriptor

namespace TypeSet

def empty : TypeSet := ⟨[]⟩

def get? (s : TypeSet) (id : TypeId) : Option TypeDescriptor := s.types.find? (·.id = id)

def size (s : TypeSet) : Nat := s.types.length

def isEmpty (s : TypeSet) : Bool := s.types.isEmpty

/-- Adds a descriptor under its identity, its bare references read within its package. -/
def insert (s : TypeSet) (d : TypeDescriptor) : Except Error (TypeId × TypeSet) :=
  match s.get? d.id with
  | some _ => .error (.duplicateName "type set" d.id.text)
  | none => .ok (d.id, ⟨s.types ++ [d.qualified]⟩)

end TypeSet

end IndexMapping
