import CallGraph.Graph
import CallGraph.Json.Writer
import CallGraph.Render.Numeral

namespace CallGraph.Render

def coordinate (value : Float32) : Json :=
  match documentNumeral? value with
  | some numeral => .number (String.ofList numeral)
  | none => .null

def positionMembers : Option Position → List (String × Json)
  | none => []
  | some position =>
      [("x", coordinate position.x), ("y", coordinate position.y)]

def identityText (id : MethodId) : Json := .string (Text.hexWord id.word)

def nodeDocument (node : GraphNode) : Json :=
  .object ([("id", identityText node.method.id),
    ("signature", .string node.method.signature),
    ("unit", .string node.method.source.path)] ++ positionMembers node.position)

def linkDocument (link : GraphNode × GraphNode) : Json :=
  .object [("caller", identityText link.1.method.id),
    ("callee", identityText link.2.method.id)]

def graphDocument (graph : Graph) : Json :=
  .object [("nodes", .array (graph.nodes.map nodeDocument)),
    ("edges", .array (graph.linkedNodes.map linkDocument))]

def document (graph : Graph) : String := (graphDocument graph).pretty

end CallGraph.Render
