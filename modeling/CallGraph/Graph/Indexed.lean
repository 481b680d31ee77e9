import CallGraph.Graph

namespace CallGraph

/-! A graph as it is kept while it grows.  Nodes and arcs have numbers, in the
order in which they were added, and an arc knows its ends by their numbers.
Beside them stand an index from identities to numbers, and the pairs of identities
that are joined. -/

structure Arc where
  caller : Nat
  callee : Nat
  deriving DecidableEq, Repr

structure NodeNumber where
  id : MethodId
  number : Nat
  deriving DecidableEq, Repr

instance : Keyed NodeNumber UInt64 := ⟨fun entry => entry.id.word⟩

instance : Keyed Link EdgeKey :=
  ⟨fun link => ⟨link.caller.word, link.callee.word⟩⟩

structure IndexedGraph where
  nodes : List GraphNode
  arcs : List Arc
  numbers : KeyedSet NodeNumber
  joined : KeyedSet Link

namespace IndexedGraph

def empty : IndexedGraph := ⟨[], [], ∅, ∅⟩

instance : Inhabited IndexedGraph := ⟨empty⟩

def number? (graph : IndexedGraph) (id : MethodId) : Option Nat :=
  (graph.numbers.find? id.word).map NodeNumber.number

def addNode (graph : IndexedGraph) (method : Method) : IndexedGraph × Nat :=
  match graph.number? method.id with
  | some number => (graph, number)
  | none =>
      let number := graph.nodes.length
      ({ graph with
          nodes := graph.nodes ++ [⟨method, none⟩]
          numbers := graph.numbers.put ⟨method.id, number⟩ }, number)

def addEdge (graph : IndexedGraph) (edge : Edge) : IndexedGraph × Bool :=
  let (graph, caller) := graph.addNode edge.caller
  let (graph, callee) := graph.addNode edge.callee
  let pair : Link := ⟨edge.caller.id, edge.callee.id⟩
  if graph.joined.contains pair then (graph, false)
  else
    ({ graph with
        arcs := graph.arcs ++ [⟨caller, callee⟩]
        joined := graph.joined.insert pair }, true)

def node? (graph : IndexedGraph) (id : MethodId) : Option GraphNode :=
  (graph.number? id).bind fun number => graph.nodes[number]?

def contains (graph : IndexedGraph) (id : MethodId) : Bool :=
  graph.numbers.has id.word

def hasLink (graph : IndexedGraph) (caller callee : MethodId) : Bool :=
  graph.joined.contains ⟨caller, callee⟩

def nodeCount (graph : IndexedGraph) : Nat := graph.nodes.length

def linkCount (graph : IndexedGraph) : Nat := graph.arcs.length

def linkedNodes (graph : IndexedGraph) : List (GraphNode × GraphNode) :=
  graph.arcs.filterMap fun arc => do
    let caller ← graph.nodes[arc.caller]?
    let callee ← graph.nodes[arc.callee]?
    return (caller, callee)

def neighbours (graph : IndexedGraph) (id : MethodId) (near far : Arc → Nat) :
    List GraphNode :=
  match graph.number? id with
  | none => []
  | some number =>
      (graph.arcs.reverse.filter fun arc => near arc == number).filterMap
        fun arc => graph.nodes[far arc]?

def callees (graph : IndexedGraph) (id : MethodId) : List GraphNode :=
  graph.neighbours id Arc.caller Arc.callee

def callers (graph : IndexedGraph) (id : MethodId) : List GraphNode :=
  graph.neighbours id Arc.callee Arc.caller

def setPosition (graph : IndexedGraph) (id : MethodId) (position : Position) :
    IndexedGraph × Bool :=
  match graph.number? id with
  | none => (graph, false)
  | some number =>
      match graph.nodes[number]? with
      | none => (graph, false)
      | some node =>
          ({ graph with
              nodes := graph.nodes.set number
                { node with position := some position } }, true)

def toGraph (graph : IndexedGraph) : Graph where
  nodes := graph.nodes
  links := graph.linkedNodes.map fun (caller, callee) =>
    ⟨caller.method.id, callee.method.id⟩

end IndexedGraph

end CallGraph
