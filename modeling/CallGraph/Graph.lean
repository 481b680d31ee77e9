import CallGraph.Method

namespace CallGraph

structure Position where
  x : Float32
  y : Float32

structure GraphNode where
  method : Method
  position : Option Position

structure Link where
  caller : MethodId
  callee : MethodId
  deriving DecidableEq, Repr

/-- The call graph handed to layout and presentation.  Nodes are unique per
method identity and links unique per pair; both are kept in the order in which
they were first added. -/
structure Graph where
  nodes : List GraphNode
  links : List Link

namespace Graph

def empty : Graph := ⟨[], []⟩

instance : Inhabited Graph := ⟨empty⟩

def node? (graph : Graph) (id : MethodId) : Option GraphNode :=
  graph.nodes.find? fun node => node.method.id == id

def contains (graph : Graph) (id : MethodId) : Bool :=
  graph.nodes.any fun node => node.method.id == id

def indexOf? (graph : Graph) (id : MethodId) : Option Nat :=
  graph.nodes.findIdx? fun node => node.method.id == id

def hasLink (graph : Graph) (caller callee : MethodId) : Bool :=
  graph.links.contains ⟨caller, callee⟩

def addNode (graph : Graph) (method : Method) : Graph :=
  if graph.contains method.id then graph
  else { graph with nodes := graph.nodes ++ [⟨method, none⟩] }

def addEdge (graph : Graph) (edge : Edge) : Graph :=
  let graph := (graph.addNode edge.caller).addNode edge.callee
  if graph.hasLink edge.caller.id edge.callee.id then graph
  else { graph with links := graph.links ++ [⟨edge.caller.id, edge.callee.id⟩] }

def nodeCount (graph : Graph) : Nat := graph.nodes.length

def linkCount (graph : Graph) : Nat := graph.links.length

def callees (graph : Graph) (id : MethodId) : List GraphNode :=
  (graph.links.reverse.filter fun link => link.caller == id).filterMap
    fun link => graph.node? link.callee

def callers (graph : Graph) (id : MethodId) : List GraphNode :=
  (graph.links.reverse.filter fun link => link.callee == id).filterMap
    fun link => graph.node? link.caller

def setPosition (graph : Graph) (id : MethodId) (position : Position) : Graph :=
  { graph with
    nodes := graph.nodes.map fun node =>
      if node.method.id == id then { node with position := some position }
      else node }

def summary (graph : Graph) : String :=
  "Graph \x7b node_count: " ++ Text.decimal graph.nodeCount ++
    ", edge_count: " ++ Text.decimal graph.linkCount ++ " \x7d"

def linkedNodes (graph : Graph) : List (GraphNode × GraphNode) :=
  graph.links.filterMap fun link => do
    let caller ← graph.node? link.caller
    let callee ← graph.node? link.callee
    return (caller, callee)

end Graph

end CallGraph
