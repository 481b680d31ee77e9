import CallGraph.Json.Reader
import CallGraph.Json.Writer
import CallGraph.Snapshot

namespace CallGraph.Snapshot.Document

def ofWord (word : UInt64) : Json := .ofNat word.toNat

def ofParam (param : Param) : Json :=
  .object [("ty", .string param.type), ("name", .string param.name)]

def ofMethod (method : Method) : Json :=
  .object [("id", ofWord method.id.word), ("unit", .string method.source.path),
    ("enclosing_type", .string method.enclosingType),
    ("name", .string method.name),
    ("params", .array (method.params.map ofParam))]

def ofEdge (edge : Edge) : Json :=
  .object [("caller", ofMethod edge.caller), ("callee", ofMethod edge.callee)]

def ofVersion (version : UnitVersion) : String × Json :=
  (version.source.path, ofWord version.token.word)

def member? (name : String) : Json → Option Json
  | .object members =>
      match members.filter fun entry => entry.1 == name with
      | [(_, value)] => some value
      | _ => none
  | _ => none

def items? : Json → Option (List Json)
  | .array items => some items
  | _ => none

def members? : Json → Option (List (String × Json))
  | .object members => some members
  | _ => none

def word? (name : String) (document : Json) : Option UInt64 :=
  (member? name document).bind Json.word?

def text? (name : String) (document : Json) : Option String :=
  (member? name document).bind Json.string?

def list? {α : Type} (name : String) (read : Json → Option α)
    (document : Json) : Option (List α) := do
  (← items? (← member? name document)).mapM read

def param? (document : Json) : Option Param := do
  return ⟨← text? "ty" document, ← text? "name" document⟩

def method? (document : Json) : Option Method := do
  return ⟨⟨← word? "id" document⟩, ⟨← text? "unit" document⟩,
    ← text? "enclosing_type" document, ← text? "name" document,
    ← list? "params" param? document⟩

def edge? (document : Json) : Option Edge := do
  return ⟨← (member? "caller" document).bind method?,
    ← (member? "callee" document).bind method?⟩

def version? (entry : String × Json) : Option UnitVersion :=
  entry.2.word?.map fun token => ⟨⟨entry.1⟩, ⟨token⟩⟩

def source? (document : Json) : Option SourceUnit :=
  document.string?.map SourceUnit.mk

end Document

def toJson (snapshot : Snapshot) : Json :=
  .object [("generation", Document.ofWord snapshot.generation),
    ("edges", .array (snapshot.edges.entries.map Document.ofEdge)),
    ("versions", .object (snapshot.versions.entries.map Document.ofVersion)),
    ("failed", .array (snapshot.failed.entries.map fun source =>
      .string source.path))]

def ofJson? (document : Json) : Option Snapshot := do
  let versions ← (← Document.members?
    (← Document.member? "versions" document)).mapM Document.version?
  return {
    generation := ← Document.word? "generation" document
    edges := KeyedSet.ofList (← Document.list? "edges" Document.edge? document)
    versions := KeyedSet.putAll ∅ versions
    failed := KeyedSet.ofList
      (← Document.list? "failed" Document.source? document) }

def toText (snapshot : Snapshot) : String := snapshot.toJson.compact

def ofText? (text : String) : Option Snapshot :=
  (Json.parse? text).bind ofJson?

end CallGraph.Snapshot
