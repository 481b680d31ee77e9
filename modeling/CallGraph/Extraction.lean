import CallGraph.Fault
import CallGraph.Snapshot

namespace CallGraph

structure Extraction where
  methods : List Method
  edges : List Edge
  deriving DecidableEq, Inhabited

abbrev Outcome := Except Fault Extraction

structure UnitOutcome where
  source : SourceUnit
  outcome : Outcome

def visitEach {σ : Type} (visit : SourceUnit → σ → σ × Option Outcome) :
    List SourceUnit → σ → σ × List UnitOutcome
  | [], state => (state, [])
  | source :: rest, state =>
      let (state, outcome?) := visit source state
      let (state, others) := visitEach visit rest state
      match outcome? with
      | none => (state, others)
      | some outcome => (state, ⟨source, outcome⟩ :: others)

/-- The merged result of one round, not committed yet. -/
structure Recomputed where
  snapshot : Snapshot
  fresh : Nat
  dropped : Nat
  failures : List AnalysisFailure
  deriving DecidableEq

namespace Recomputed

def foundEdges (results : List UnitOutcome) : List Edge :=
  results.flatMap fun result =>
    match result.outcome with
    | .ok extraction => extraction.edges
    | .error _ => []

def failuresOf (results : List UnitOutcome) : List AnalysisFailure :=
  results.filterMap fun result =>
    match result.outcome with
    | .ok _ => none
    | .error fault => some ⟨result.source, fault.message⟩

def isInside (versions : VersionMap) (edge : Edge) : Bool :=
  versions.records edge.caller.source && versions.records edge.callee.source

/-- Extracted edges join the ones that stayed valid.  Those into units without a
version are dropped and counted.  A failed unit keeps no outgoing edges. -/
def merge (valid : EdgeSet) (versions : VersionMap)
    (results : List UnitOutcome) : Recomputed :=
  let found := foundEdges results
  let fresh : EdgeSet := KeyedSet.ofList (found.filter (isInside versions))
  let failures := failuresOf results
  let failed : UnitSet :=
    KeyedSet.ofList (failures.map AnalysisFailure.source)
  let edges := (valid.union fresh).filter fun edge =>
    !failed.contains edge.caller.source
  { snapshot := ⟨0, edges, versions, failed⟩
    fresh := fresh.size
    dropped := (found.filter fun edge => !isInside versions edge).length
    failures := failures }

end Recomputed

end CallGraph
