import CallGraph.Graph
import CallGraph.Snapshot

namespace CallGraph.Render

def pairChars (caller callee : Method) : List Char :=
  "Caller: ".toList ++ caller.signature.toList ++
    "\nCallee: ".toList ++ callee.signature.toList ++ "\n\n".toList

def pairs (snapshot : Snapshot) : String :=
  String.ofList
    (snapshot.edges.entries.flatMap fun edge =>
      pairChars edge.caller edge.callee)

def graphPairs (graph : Graph) : String :=
  String.ofList
    (graph.linkedNodes.flatMap fun (caller, callee) =>
      pairChars caller.method callee.method)

end CallGraph.Render
