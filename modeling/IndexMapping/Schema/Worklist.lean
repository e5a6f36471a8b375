import IndexMapping.Json.Bytes
import IndexMapping.Schema.Expand
import IndexMapping.Settings.Basic

/-! Compiling requested types into one document. A type is requested at most once, the newest
request is compiled first, and each type has one entry under its normalised name. -/

namespace IndexMapping

structure Worklist where
  /-- Types that have been taken up, newest first. -/
  seen : List TypeId
  /-- Types that wait, newest first. -/
  waiting : List TypeId
  deriving DecidableEq, Repr

namespace Worklist

def empty : Worklist := ⟨[], []⟩

/-- The types that wait, oldest request first. -/
def pending (w : Worklist) : List TypeId := w.waiting.reverse

/-- Requests a type that is neither waiting nor taken up. -/
def request (w : Worklist) (id : TypeId) : Worklist :=
  if id ∈ w.seen || id ∈ w.waiting then w else { w with waiting := id :: w.waiting }

end Worklist

namespace TypeSet

/-- The entry of a type, under a name that no entry has. -/
def mapping (s : TypeSet) (tagKey : String) (done : List (String × Properties)) (id : TypeId) :
    Except Error (String × Properties) :=
  match s.get? id with
  | none => .error (.unknownType id)
  | some d => do
    let name := Identifier.snake d.name
    let ps ← s.compile tagKey id
    if name ∈ done.map (·.1) then .error (.duplicateName "mappings" name) else .ok (name, ps)

/-- Takes up one waiting type after the other; the first error stops it and drops the document. -/
def drain (s : TypeSet) (tagKey : String) (seen : List TypeId) (done : List (String × Properties)) :
    List TypeId → Except Error Document × Worklist
  | [] => (.ok ⟨done⟩, ⟨seen, []⟩)
  | id :: waiting =>
    match s.mapping tagKey done id with
    | .error e => (.error e, ⟨id :: seen, waiting⟩)
    | .ok entry => s.drain tagKey (id :: seen) (done ++ [entry]) waiting

/-- The document of all waiting types. -/
def build (s : TypeSet) (tagKey : String) (w : Worklist) : Except Error Document × Worklist :=
  s.drain tagKey w.seen [] w.waiting

end TypeSet

/-- The text of a document. -/
def Document.render (format : OutputFormat) (d : Document) : Except Error String :=
  match format with
  | .compact => .ok d.encode.compact
  | .pretty => (Json.indent d.encode.compact).mapError .formatting

/-- The text of the document of all waiting types. -/
def TypeSet.run (s : TypeSet) (c : CompilerSettings) (w : Worklist) :
    Except Error String × Worklist :=
  let (document, w) := s.build c.tagKey w
  (document >>= Document.render c.format, w)

end IndexMapping
