import CallGraph.Graph
import CallGraph.Reach

namespace CallGraph

/-! Left-to-right layers: callers stand left of callees, and the methods of a
call cycle in one layer.  Coordinates end at the two ratios. -/

structure LayeredLayout where
  xRatio : Float32
  yRatio : Float32

namespace LayeredLayout

instance : Inhabited LayeredLayout := ⟨⟨1, 2⟩⟩

structure Reachable where
  source : MethodId
  targets : List MethodId

def reachability (graph : Graph) : List Reachable :=
  let links := graph.links.map fun link => (link.caller, link.callee)
  graph.nodes.map fun node =>
    ⟨node.method.id, Reach.reached links [node.method.id]⟩

def reaches (reachability : List Reachable) (source target : MethodId) : Bool :=
  reachability.any fun entry =>
    entry.source == source && entry.targets.contains target

def sameComponent (reachability : List Reachable) (first second : MethodId) :
    Bool :=
  reaches reachability first second && reaches reachability second first

/-- The links between different components, with every method of the component
they lead into. -/
def layerSteps (graph : Graph) : List (MethodId × MethodId) :=
  let reachability := reachability graph
  graph.links.flatMap fun link =>
    if sameComponent reachability link.caller link.callee then []
    else (graph.nodes.filter fun node =>
      sameComponent reachability link.callee node.method.id).map
        fun node => (link.caller, node.method.id)

/-- The rank of a method is the largest number of such links on a path that
ends in its component.  Round `n` is right for paths of at most `n` of them,
and no path has more than there are nodes. -/
structure Ranked where
  method : Method
  rank : Nat

def rankOf (ranks : List Ranked) (id : MethodId) : Nat :=
  ((ranks.find? fun ranked => ranked.method.id == id).map Ranked.rank).getD 0

def raise (steps : List (MethodId × MethodId)) (ranks : List Ranked) :
    List Ranked :=
  ranks.map fun ranked =>
    { ranked with
      rank := (steps.filter fun (_, target) => target == ranked.method.id).foldl
        (fun highest (source, _) => max highest (rankOf ranks source + 1)) 0 }

def raiseRounds (steps : List (MethodId × MethodId)) :
    Nat → List Ranked → List Ranked
  | 0, ranks => ranks
  | rounds + 1, ranks => raiseRounds steps rounds (raise steps ranks)

def ranks (graph : Graph) : List Ranked :=
  raiseRounds (layerSteps graph) graph.nodeCount
    (graph.nodes.map fun node => ⟨node.method, 0⟩)

def rowBefore (first second : Method) : Bool :=
  first.name < second.name ||
    (first.name == second.name && first.id.word ≤ second.id.word)

def layer (ranks : List Ranked) (rank : Nat) : List Method :=
  ((ranks.filter fun ranked => ranked.rank == rank).map Ranked.method).mergeSort
    rowBefore

def share (ratio : Float32) (index count : Nat) : Float32 :=
  if count = 0 then 0 else ratio * index.toFloat32 / count.toFloat32

def place (layout : LayeredLayout) (ranks : List Ranked) (method : Method) :
    Position :=
  let last := ranks.foldl (fun highest ranked => max highest ranked.rank) 0
  let rank := rankOf ranks method.id
  let rows := layer ranks rank
  let row := (rows.findIdx? fun other => other.id == method.id).getD 0
  ⟨share layout.xRatio rank last, share layout.yRatio row (rows.length - 1)⟩

def apply (layout : LayeredLayout) (graph : Graph) : Graph :=
  let ranks := ranks graph
  { graph with
    nodes := graph.nodes.map fun node =>
      { node with position := some (layout.place ranks node.method) } }

end LayeredLayout

end CallGraph
