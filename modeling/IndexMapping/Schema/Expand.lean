import IndexMapping.Descriptor.TypeSet
import IndexMapping.Identifier
import IndexMapping.Schema.Basic

/-! The properties of a type. Only fields with a tag count; a field whose type is a struct has
the properties of that struct, which are expanded in place. A tag is `name,kind`, where an empty
name stands for the field's own name and what follows a second comma is ignored. -/

namespace IndexMapping

/-! ### Tags -/

structure MappingTag where
  /-- The name in the index. -/
  name : String
  /-- The kind in the index, as written. -/
  kind : String
  deriving DecidableEq, Repr

namespace MappingTag

def notComma (c : Char) : Bool := c != ','

/-- Reads the tag of a field of `owner`; it must have a comma. -/
def parse (raw field owner : String) : Except Error MappingTag :=
  match raw.toList.dropWhile notComma with
  | [] => .error (.malformedTag owner field raw)
  | _ :: rest =>
    let name := String.ofList (raw.toList.takeWhile notComma)
    .ok ⟨if name.isEmpty then Identifier.snake field else name,
      String.ofList (rest.takeWhile notComma)⟩

end MappingTag

/-! ### Properties -/

mutual

/-- The property of a tagged field. References are expanded by `expand`. -/
def FieldType.property (tagKey : String) (expand : TypeId → Except Error Properties)
    (scope kind : String) : FieldType → Except Error Property
  | .scalar _ => .ok (.scalar kind)
  | .reference id => (expand id).map (.object kind)
  | .inline fs => (FieldType.properties tagKey expand scope [] fs).map (.object kind)

/-- The properties of the fields of `owner`; `taken` are the names given before. -/
def FieldType.properties (tagKey : String) (expand : TypeId → Except Error Properties)
    (owner : String) (taken : List String) : List Field → Except Error Properties
  | [] => .ok []
  | ⟨name, type, tags⟩ :: fs =>
    match FieldOf.tag? ⟨name, type, tags⟩ tagKey with
    | none => FieldType.properties tagKey expand owner taken fs
    | some raw => do
      let tag ← MappingTag.parse raw name owner
      let p ← FieldType.property tagKey expand (owner ++ "." ++ name) tag.kind type
      if tag.name ∈ taken then .error (.duplicateName owner tag.name)
      else
        let ps ← FieldType.properties tagKey expand owner (tag.name :: taken) fs
        .ok ((tag.name, p) :: ps)

end

namespace TypeSet

/-- The types that are not on a chain of references. -/
def outside (s : TypeSet) (chain : List TypeId) : List TypeDescriptor :=
  s.types.filter fun d => d.id ∉ chain

theorem length_outside_lt {s : TypeSet} {chain : List TypeId} {id : TypeId} {d : TypeDescriptor}
    (hid : id ∉ chain) (hd : s.get? id = some d) :
    (s.outside (id :: chain)).length < (s.outside chain).length := by
  have hmem : d ∈ s.types := List.mem_of_find?_eq_some hd
  have heq : d.id = id := by simpa using List.find?_some hd
  have hsub : s.outside (id :: chain) = (s.outside chain).filter fun d => d.id ≠ id := by
    simp [outside, List.filter_filter]
  rw [hsub]
  refine List.length_filter_lt_length_iff_exists.2 ⟨d, ?_, by simp [heq]⟩
  simp [outside, hmem, heq, hid]

/-- The properties of a type. The chain holds the types being expanded, newest first; meeting
one of them again is a cycle. -/
def expand (s : TypeSet) (tagKey : String) (chain : List TypeId) (id : TypeId) :
    Except Error Properties :=
  if hid : id ∈ chain then .error (.recursiveType (chain.reverse ++ [id]))
  else match hd : s.get? id with
    | none => .error (.unknownType id)
    | some d =>
      have := length_outside_lt hid hd
      FieldType.properties tagKey (fun ref => s.expand tagKey (id :: chain) ref) d.name [] d.fields
termination_by (s.outside chain).length

/-- The properties of a type. -/
def compile (s : TypeSet) (tagKey : String) (id : TypeId) : Except Error Properties :=
  s.expand tagKey [] id

end TypeSet

end IndexMapping
