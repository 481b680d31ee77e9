import CallGraph.Build.Coordinator
import CallGraph.Extraction
import CallGraph.Scope

namespace CallGraph

/-! What a host does while it is asked something.  It works on its own state
and may, between two steps of that work, cancel the running build, look at the
coordinator, or start another build on it and wait for the result.  The result
is missing when builds are nested too deeply. -/

inductive Activity (σ α : Type) where
  | done (host : σ) (answer : α)
  | cancelRunning (next : Activity σ α)
  | observe (next : Coordinator → Activity σ α)
  | build (host : σ) (scope : ViewScope)
      (next : σ → Option BuildResult → Activity σ α)

namespace Activity

variable {σ α β : Type}

def andThen : Activity σ α → (α → σ → Activity σ β) → Activity σ β
  | done host answer, next => next answer host
  | cancelRunning rest, next => cancelRunning (rest.andThen next)
  | observe rest, next => observe fun coordinator =>
      (rest coordinator).andThen next
  | build host scope rest, next => build host scope fun host result? =>
      (rest host result?).andThen next

def map (f : α → β) (activity : Activity σ α) : Activity σ β :=
  activity.andThen fun answer host => done host (f answer)

def onSuccess (activity : Activity σ (Except Fault α))
    (next : α → σ → Activity σ (Except Fault β)) :
    Activity σ (Except Fault β) :=
  activity.andThen fun answer host =>
    match answer with
    | .error fault => done host (.error fault)
    | .ok value => next value host

end Activity

/-- The capabilities a build drives: it never reads sources, lists files or
draws anything by itself.  Progress is only observed and answers nothing. -/
structure Host (σ : Type) where
  allUnits : σ → Activity σ (Except Fault UnitSet)
  versionOf : SourceUnit → σ → Activity σ (Except Fault VersionToken)
  extract : SourceUnit → σ → Activity σ Outcome
  unitsInScope : ViewScope → σ → Activity σ (Except Fault UnitSet)
  methodsInScope : UnitSet → σ → Activity σ (Except Fault (List Method))
  layout : Graph → σ → Activity σ Graph
  present : Graph → σ → Activity σ Unit
  resetProgress : Nat → σ → σ
  countProgress : σ → σ

namespace Host

variable {σ : Type}

def dependenciesOfAll
    (dependenciesOf : Method → σ → Activity σ (Except Fault (List Edge))) :
    List Method → σ → Activity σ (Except Fault (List Edge))
  | [], host => .done host (.ok [])
  | method :: rest, host =>
      (dependenciesOf method host).onSuccess fun edges host =>
        (dependenciesOfAll dependenciesOf rest host).onSuccess
          fun others host => .done host (.ok (edges ++ others))

def extractByMethod
    (methodsOf : SourceUnit → σ → Activity σ (Except Fault (List Method)))
    (dependenciesOf : Method → σ → Activity σ (Except Fault (List Edge)))
    (source : SourceUnit) (host : σ) : Activity σ Outcome :=
  (methodsOf source host).onSuccess fun methods host =>
    (dependenciesOfAll dependenciesOf methods host).onSuccess
      fun edges host => .done host (.ok ⟨methods, edges⟩)

def layoutNothing (graph : Graph) (host : σ) : Activity σ Graph :=
  .done host graph

def presentNothing (_ : Graph) (host : σ) : Activity σ Unit := .done host ()

end Host

end CallGraph
