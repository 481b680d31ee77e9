import CallGraph.Fault
import CallGraph.Graph
import CallGraph.Snapshot

namespace CallGraph

/-- Builds are numbered from one in the order in which they begin. -/
abbrev BuildId := Nat

structure BuildStats where
  units : Nat
  added : Nat
  changed : Nat
  removed : Nat
  reparsed : Nat
  valid : Nat
  stale : Nat
  fresh : Nat
  deriving DecidableEq, Repr, Inhabited

/-- A build ends with a commit and a graph, or was superseded or cancelled
before that. -/
inductive BuildOutcome where
  | committed (snapshot : Snapshot) (graph : Graph)
  | cancelled

structure BuildReport where
  id : BuildId
  outcome : BuildOutcome
  stats : BuildStats
  failures : List AnalysisFailure
  unknown : Option UnknownUnits

namespace BuildReport

def ofCancelled (id : BuildId) (stats : BuildStats) : BuildReport :=
  ⟨id, .cancelled, stats, [], none⟩

def isCommitted (report : BuildReport) : Bool :=
  match report.outcome with
  | .committed .. => true
  | .cancelled => false

def snapshot? (report : BuildReport) : Option Snapshot :=
  match report.outcome with
  | .committed snapshot _ => some snapshot
  | .cancelled => none

def graph? (report : BuildReport) : Option Graph :=
  match report.outcome with
  | .committed _ graph => some graph
  | .cancelled => none

end BuildReport

abbrev BuildResult := Except BuildError BuildReport

end CallGraph
