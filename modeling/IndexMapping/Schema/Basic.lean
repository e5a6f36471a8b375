import IndexMapping.Json.Decoder

/-! Mappings documents: for each type its properties, in order. -/

namespace IndexMapping

open Json (Decoder Record Mismatch)

inductive Property where
  | scalar (kind : String)
  /-- A property with properties of its own. -/
  | object (kind : String) (properties : List (String × Property))

abbrev Properties := List (String × Property)

structure Document where
  mappings : List (String × Properties)

/-! ### Encoding -/

mutual

def Property.encode : Property → Json
  | .scalar k => .object [("type", .string k)]
  | .object k ps =>
    .object [("type", .string k), ("properties", .object (Property.encodeMembers ps))]

def Property.encodeMembers : Properties → List (String × Json)
  | [] => []
  | (name, p) :: ps => (name, p.encode) :: Property.encodeMembers ps

end

def Document.encodeMapping (ps : Properties) : Json :=
  .object [("properties", .object (Property.encodeMembers ps))]

def Document.encode (d : Document) : Json :=
  .object [("mappings", .object (d.mappings.map fun (name, ps) => (name, encodeMapping ps)))]

/-! ### Decoding -/

structure PartialProperty where
  kind : Option String := none
  properties : Option (Option Properties) := none

def Property.record (property : Decoder Property) : Record PartialProperty Property where
  name := "PropertyEntry"
  fields := [
    ⟨"type", true, (·.kind.isSome), Decoder.string.map fun v s => { s with kind := some v }⟩,
    ⟨"properties", false, (·.properties.isSome),
      property.table.nullable.map fun v s => { s with properties := some v }⟩]
  empty := {}
  complete s :=
    match s.kind, s.properties.join with
    | none, _ => .error (.missingField "type")
    | some k, none => .ok (.scalar k)
    | some k, some ps => .ok (.object k ps)

/-- Properties that nest less than `nesting` deep. -/
def Property.decoder : Nat → Decoder Property
  | 0 => .tooDeep
  | nesting + 1 => (Property.record (Property.decoder nesting)).decoder

structure PartialMapping where
  properties : Option Properties := none

def Document.mappingRecord (nesting : Nat) : Record PartialMapping Properties where
  name := "TypeMapping"
  fields := [
    ⟨"properties", true, (·.properties.isSome),
      (Property.decoder nesting).table.map fun v s => { s with properties := some v }⟩]
  empty := {}
  complete s :=
    match s.properties with
    | none => .error (.missingField "properties")
    | some ps => .ok ps

structure PartialDocument where
  mappings : Option (List (String × Properties)) := none

def Document.record (nesting : Nat) : Record PartialDocument Document where
  name := "MappingsDocument"
  fields := [
    ⟨"mappings", true, (·.mappings.isSome),
      (mappingRecord nesting).decoder.table.map fun v s => { s with mappings := some v }⟩]
  empty := {}
  complete s :=
    match s.mappings with
    | none => .error (.missingField "mappings")
    | some ms => .ok ⟨ms⟩

/-- The document that a JSON text holds. -/
def Document.parse (text : String) : Except Json.ReadError Document :=
  (Document.record Json.depthLimit).decoder.parse text

end IndexMapping
