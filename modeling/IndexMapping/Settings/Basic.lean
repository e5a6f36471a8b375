import IndexMapping.Json.Decoder

/-! Settings of the generator, with their defaults and their JSON form. -/

namespace IndexMapping

open Json (Decoder Record Variant Mismatch)

/-- How a document is laid out: one tab for each level, or without white space. -/
inductive OutputFormat where
  | pretty
  | compact
  deriving DecidableEq, Repr

def OutputFormat.name : OutputFormat → String
  | pretty => "pretty"
  | compact => "compact"

structure CompilerSettings where
  /-- The key under which fields carry their mapping tags. -/
  tagKey : String := "es-mapping"
  format : OutputFormat := .pretty
  deriving DecidableEq, Repr

structure InputSettings where
  /-- Compile every type, not only annotated ones. -/
  allTypes : Bool := false
  /-- The extension of descriptor files, without its dot. -/
  extension : String := "types.json"
  deriving DecidableEq, Repr

structure OutputSettings where
  /-- What follows the stem or the package name in the name of an output file. -/
  fileSuffix : String := "_es_mapper.json"
  deriving DecidableEq, Repr

structure Settings where
  compiler : CompilerSettings := {}
  input : InputSettings := {}
  output : OutputSettings := {}
  deriving DecidableEq, Repr

namespace Settings

def encode (s : Settings) : Json :=
  .object [
    ("compiler", .object [("tag_key", .string s.compiler.tagKey),
      ("format", .string s.compiler.format.name)]),
    ("input", .object [("all_types", .bool s.input.allTypes),
      ("extension", .string s.input.extension)]),
    ("output", .object [("file_suffix", .string s.output.fileSuffix)])]

/-! ### Decoding -/

structure PartialCompiler where
  tagKey : Option String := none
  format : Option OutputFormat := none

def compilerRecord : Record PartialCompiler CompilerSettings where
  name := "CompilerConfig"
  fields := [
    ⟨"tag_key", false, (·.tagKey.isSome),
      Decoder.string.map fun v s => { s with tagKey := some v }⟩,
    ⟨"format", false, (·.format.isSome),
      (Variant.decoder [⟨"pretty", none, some .pretty⟩, ⟨"compact", none, some .compact⟩]).map
        fun v s => { s with format := some v }⟩]
  empty := {}
  complete s :=
    let d : CompilerSettings := {}
    .ok ⟨s.tagKey.getD d.tagKey, s.format.getD d.format⟩

structure PartialInput where
  allTypes : Option Bool := none
  extension : Option String := none

def inputRecord : Record PartialInput InputSettings where
  name := "InputConfig"
  fields := [
    ⟨"all_types", false, (·.allTypes.isSome),
      Decoder.bool.map fun v s => { s with allTypes := some v }⟩,
    ⟨"extension", false, (·.extension.isSome),
      Decoder.string.map fun v s => { s with extension := some v }⟩]
  empty := {}
  complete s :=
    let d : InputSettings := {}
    .ok ⟨s.allTypes.getD d.allTypes, s.extension.getD d.extension⟩

structure PartialOutput where
  fileSuffix : Option String := none

def outputRecord : Record PartialOutput OutputSettings where
  name := "OutputConfig"
  fields := [
    ⟨"file_suffix", false, (·.fileSuffix.isSome),
      Decoder.string.map fun v s => { s with fileSuffix := some v }⟩]
  empty := {}
  complete s :=
    let d : OutputSettings := {}
    .ok ⟨s.fileSuffix.getD d.fileSuffix⟩

structure PartialSettings where
  compiler : Option CompilerSettings := none
  input : Option InputSettings := none
  output : Option OutputSettings := none

def record : Record PartialSettings Settings where
  name := "MapperConfig"
  fields := [
    ⟨"compiler", false, (·.compiler.isSome),
      compilerRecord.decoder.map fun v s => { s with compiler := some v }⟩,
    ⟨"input", false, (·.input.isSome),
      inputRecord.decoder.map fun v s => { s with input := some v }⟩,
    ⟨"output", false, (·.output.isSome),
      outputRecord.decoder.map fun v s => { s with output := some v }⟩]
  empty := {}
  complete s := .ok ⟨s.compiler.getD {}, s.input.getD {}, s.output.getD {}⟩

/-- The settings that a JSON value holds. -/
def decode (v : Json) : Except Mismatch Settings := record.decoder.ofValue v

end Settings

end IndexMapping
