import CallGraph.Graph
import CallGraph.Render.Numeral
import CallGraph.Text.Digits

namespace CallGraph.Render

/-! Graphviz text, left to right.  A node is named by its identity and labelled
with its signature; a position is pinned. -/

def escapeLabelChar (character : Char) : List Char :=
  if character == '\\' then ['\\', '\\']
  else if character == '"' then ['\\', '"']
  else [character]

def escapeLabel (label : List Char) : List Char := label.flatMap escapeLabelChar

def quoted (characters : List Char) : List Char := '"' :: characters ++ ['"']

def nodeName (id : MethodId) : List Char := (Text.hexWord id.word).toList

def pin (position : Position) : List Char :=
  ", pos=".toList ++
    quoted (drawingNumeral position.x ++ ',' :: drawingNumeral position.y ++
      ['!'])

def nodeLine (node : GraphNode) : List Char :=
  "    ".toList ++ quoted (nodeName node.method.id) ++ " [label=".toList ++
    quoted (escapeLabel node.method.signature.toList) ++
      (node.position.map pin).getD [] ++ "];\n".toList

def linkLine (link : GraphNode × GraphNode) : List Char :=
  "    ".toList ++ quoted (nodeName link.1.method.id) ++ " -> ".toList ++
    quoted (nodeName link.2.method.id) ++ ";\n".toList

def dotOpening : List Char :=
  "digraph callweave \x7b\n    rankdir=LR;\n    node [shape=box];\n".toList

def dotChars (graph : Graph) : List Char :=
  dotOpening ++ graph.nodes.flatMap nodeLine ++
    graph.linkedNodes.flatMap linkLine ++ "\x7d\n".toList

def dot (graph : Graph) : String := String.ofList (dotChars graph)

end CallGraph.Render
