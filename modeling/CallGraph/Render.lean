import CallGraph.Render.Document
import CallGraph.Render.Dot
import CallGraph.Render.Pairs

namespace CallGraph

inductive OutputFormat where
  | json
  | dot
  | pairs
  deriving DecidableEq, Repr, Inhabited

namespace OutputFormat

def name : OutputFormat → String
  | json => "json"
  | dot => "dot"
  | pairs => "pairs"

def all : List OutputFormat := [json, dot, pairs]

def ofName? (text : String) : Option OutputFormat :=
  all.find? fun format => format.name == text

theorem ofName?_name (format : OutputFormat) :
    ofName? format.name = some format := by
  cases format <;> decide

def render : OutputFormat → Graph → String
  | json, graph => Render.document graph
  | dot, graph => Render.dot graph
  | pairs, graph => Render.graphPairs graph

end OutputFormat

end CallGraph
