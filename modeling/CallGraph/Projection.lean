import CallGraph.Graph
import CallGraph.Reach
import CallGraph.Snapshot

namespace CallGraph.Projection

def identities (methods : List Method) : List MethodId := methods.map Method.id

def withNodes (methods : List Method) : Graph :=
  methods.foldl Graph.addNode Graph.empty

/-- Every method in scope is a node.  An edge with an end in scope is shown
with both ends, so that callers from outside the scope appear too. -/
def ofScope (methods : List Method) (snapshot : Snapshot) : Graph :=
  let inScope := identities methods
  let shown := snapshot.edges.entries.filter fun edge =>
    inScope.contains edge.caller.id || inScope.contains edge.callee.id
  shown.foldl Graph.addEdge (withNodes methods)

/-! The call chains through `focus`: what calls it and what it calls, directly
or not.  Other callers of the methods below it, and other callees of the methods
above it, stay out. -/

def downLinks (snapshot : Snapshot) : List (MethodId × MethodId) :=
  snapshot.edges.entries.map fun edge => (edge.caller.id, edge.callee.id)

def upLinks (snapshot : Snapshot) : List (MethodId × MethodId) :=
  snapshot.edges.entries.map fun edge => (edge.callee.id, edge.caller.id)

def chains (focus : List Method) (snapshot : Snapshot) : List Edge :=
  let above := Reach.reached (upLinks snapshot) (identities focus)
  let below := Reach.reached (downLinks snapshot) (identities focus)
  snapshot.edges.entries.filter fun edge =>
    above.contains edge.callee.id || below.contains edge.caller.id

def ofFocus (focus : List Method) (snapshot : Snapshot) : Graph :=
  (chains focus snapshot).foldl Graph.addEdge (withNodes focus)

end CallGraph.Projection
