import IndexMapping.Descriptor.Basic
import IndexMapping.Json.Decoder

/-! The JSON form of descriptors. Absent packages and empty tags are left out. -/

namespace IndexMapping

open Json (Decoder Record RecordField Variant Mismatch)

/-! ### Encoding -/

def encodeTags (tags : SortedMap String) : Option (String × Json) :=
  if tags.isEmpty then none
  else some ("tags", .object (tags.toList.map fun (k, v) => (k, .string v)))

mutual

def FieldType.encode : FieldType → Json
  | .scalar s => .object [("scalar", .string s)]
  | .reference id => .object [("struct", .string id.text)]
  | .inline fs => .object [("inline", .array (FieldType.encodeFields fs))]

def FieldType.encodeFields : List Field → List Json
  | [] => []
  | ⟨name, type, tags⟩ :: fs =>
    .ofMembers [some ("name", .string name), some ("type", type.encode), encodeTags tags] ::
      FieldType.encodeFields fs

end

def encodePackage (package : Option String) : Option (String × Json) :=
  package.map fun p => ("package", .string p)

def TypeDescriptor.encode (d : TypeDescriptor) : Json :=
  .ofMembers [some ("name", .string d.name), encodePackage d.package,
    some ("annotated", .bool d.annotated),
    some ("fields", .array (FieldType.encodeFields d.fields))]

def DescriptorFile.encode (f : DescriptorFile) : Json :=
  .ofMembers [encodePackage f.package, some ("types", .array (f.types.map (·.encode)))]

/-! ### Decoding -/

/-- The fields of a field, as far as they have been read. -/
structure PartialField where
  name : Option String := none
  type : Option FieldType := none
  tags : Option (SortedMap String) := none

def FieldType.decoder (field : Decoder Field) : Decoder FieldType :=
  Variant.decoder [
    ⟨"scalar", some (Decoder.string.map .scalar), none⟩,
    ⟨"struct", some (Decoder.string.map fun s => .reference ⟨s⟩), none⟩,
    ⟨"inline", some (field.list.map .inline), none⟩]

def Field.record (field : Decoder Field) : Record PartialField Field where
  name := "FieldDescriptor"
  fields := [
    ⟨"name", true, (·.name.isSome), Decoder.string.map fun v s => { s with name := some v }⟩,
    ⟨"type", true, (·.type.isSome),
      (FieldType.decoder field).map fun v s => { s with type := some v }⟩,
    ⟨"tags", false, (·.tags.isSome),
      Decoder.string.table.map fun v s => { s with tags := some (.ofList v) }⟩]
  empty := {}
  complete s :=
    match s.name, s.type with
    | none, _ => .error (.missingField "name")
    | _, none => .error (.missingField "type")
    | some name, some type => .ok ⟨name, type, s.tags.getD .empty⟩

/-- Fields whose inline types nest less than `nesting` deep. -/
def Field.decoder : Nat → Decoder Field
  | 0 => .tooDeep
  | nesting + 1 => (Field.record (Field.decoder nesting)).decoder

/-- The fields of a type, as far as they have been read. -/
structure PartialType where
  name : Option String := none
  package : Option (Option String) := none
  annotated : Option Bool := none
  fields : Option (List Field) := none

def TypeDescriptor.record (nesting : Nat) : Record PartialType TypeDescriptor where
  name := "TypeDescriptor"
  fields := [
    ⟨"name", true, (·.name.isSome), Decoder.string.map fun v s => { s with name := some v }⟩,
    ⟨"package", false, (·.package.isSome),
      Decoder.string.nullable.map fun v s => { s with package := some v }⟩,
    ⟨"annotated", false, (·.annotated.isSome),
      Decoder.bool.map fun v s => { s with annotated := some v }⟩,
    ⟨"fields", false, (·.fields.isSome),
      (Field.decoder nesting).list.map fun v s => { s with fields := some v }⟩]
  empty := {}
  complete s :=
    match s.name with
    | none => .error (.missingField "name")
    | some name => .ok ⟨name, s.package.join, s.annotated.getD false, s.fields.getD []⟩

/-- The contents of a file, as far as they have been read. -/
structure PartialFile where
  package : Option (Option String) := none
  types : Option (List TypeDescriptor) := none

def DescriptorFile.record (nesting : Nat) : Record PartialFile DescriptorFile where
  name := "DescriptorFile"
  fields := [
    ⟨"package", false, (·.package.isSome),
      Decoder.string.nullable.map fun v s => { s with package := some v }⟩,
    ⟨"types", false, (·.types.isSome),
      (TypeDescriptor.record nesting).decoder.list.map fun v s => { s with types := some v }⟩]
  empty := {}
  complete s := .ok ⟨s.package.join, s.types.getD []⟩

/-- The type that a JSON value describes. -/
def TypeDescriptor.decode (v : Json) : Except Mismatch TypeDescriptor :=
  (TypeDescriptor.record v.depth).decoder.ofValue v

/-- The contents of a descriptor file. -/
def DescriptorFile.parse (text : String) : Except Json.ReadError DescriptorFile :=
  (DescriptorFile.record Json.depthLimit).decoder.parse text

end IndexMapping
