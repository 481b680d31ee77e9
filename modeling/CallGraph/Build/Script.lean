import CallGraph.Build.Host
import CallGraph.Layout
import CallGraph.Progress

namespace CallGraph

inductive ScriptAction where
  | cancel
  | state
  | generation
  | touch (source : SourceUnit)
  | build (scope : ViewScope)
  deriving DecidableEq, Repr

namespace ScriptAction

def startsBuild : ScriptAction → Bool
  | build _ => true
  | _ => false

end ScriptAction

inductive ScriptAnswer where
  | cancelled
  | state (state : BuildState)
  | generation (generation : UInt64)
  | touched
  | built (result : Option BuildResult)

inductive ScriptEntry where
  | acted (place : String) (answer : ScriptAnswer)
  | shown (nodes links : Nat)

/-- Table rows.  Faults and actions belong to places, which go by name. -/
structure MethodRow where
  source : SourceUnit
  methods : List Method

instance : Keyed MethodRow String := ⟨fun row => row.source.path⟩

structure EdgeRow where
  source : SourceUnit
  edges : List Edge

instance : Keyed EdgeRow String := ⟨fun row => row.source.path⟩

structure FaultRow where
  place : String
  fault : Fault

instance : Keyed FaultRow String := ⟨FaultRow.place⟩

structure ActionRow where
  place : String
  actions : List ScriptAction

instance : Keyed ActionRow String := ⟨ActionRow.place⟩

structure Script where
  versions : VersionMap
  methods : KeyedSet MethodRow
  edges : KeyedSet EdgeRow
  faults : KeyedSet FaultRow
  actions : KeyedSet ActionRow
  extracted : List SourceUnit
  log : List ScriptEntry
  progress : Progress

namespace Script

def empty : Script := ⟨∅, ∅, ∅, ∅, ∅, [], [], Progress.none⟩

instance : Inhabited Script := ⟨empty⟩

def setVersion (script : Script) (source : SourceUnit) (token : VersionToken) :
    Script :=
  { script with versions := script.versions.put ⟨source, token⟩ }

def removeVersion (script : Script) (source : SourceUnit) : Script :=
  { script with versions := script.versions.erase source.path }

def setMethods (script : Script) (source : SourceUnit) (methods : List Method) :
    Script :=
  { script with methods := script.methods.put ⟨source, methods⟩ }

def setEdges (script : Script) (source : SourceUnit) (edges : List Edge) :
    Script :=
  { script with edges := script.edges.put ⟨source, edges⟩ }

def setFault (script : Script) (place : String) (fault : Fault) : Script :=
  { script with faults := script.faults.put ⟨place, fault⟩ }

def clearFault (script : Script) (place : String) : Script :=
  { script with faults := script.faults.erase place }

def actionsAt (script : Script) (place : String) : List ScriptAction :=
  ((script.actions.find? place).map ActionRow.actions).getD []

def addAction (script : Script) (place : String) (action : ScriptAction) :
    Script :=
  { script with
    actions := script.actions.put ⟨place, script.actionsAt place ++ [action]⟩ }

def onlyCancelling (script : Script) : Script :=
  { script with
    actions := KeyedSet.putAll ∅ (script.actions.entries.map fun row =>
      { row with actions := row.actions.map fun _ => .cancel }) }

def touch (script : Script) (source : SourceUnit) : Script :=
  let token := ((script.versions.token? source).map VersionToken.word).getD 0
  script.setVersion source ⟨token + 1⟩

def note (script : Script) (entry : ScriptEntry) : Script :=
  { script with log := script.log ++ [entry] }

def noteExtracted (script : Script) (source : SourceUnit) : Script :=
  { script with extracted := script.extracted ++ [source] }

def turnPage (script : Script) : Script :=
  { script with extracted := [], log := [] }

def methodsIn (script : Script) (source : SourceUnit) : List Method :=
  ((script.methods.find? source.path).map MethodRow.methods).getD []

def edgesOf (script : Script) (source : SourceUnit) : List Edge :=
  ((script.edges.find? source.path).map EdgeRow.edges).getD []

def perform (place : String) :
    List ScriptAction → Script → Activity Script Unit
  | [], script => .done script ()
  | .cancel :: rest, script =>
      .cancelRunning (perform place rest (script.note (.acted place .cancelled)))
  | .state :: rest, script => .observe fun coordinator =>
      perform place rest
        (script.note (.acted place (.state coordinator.state)))
  | .generation :: rest, script => .observe fun coordinator =>
      perform place rest
        (script.note (.acted place (.generation coordinator.snapshot.generation)))
  | .touch source :: rest, script =>
      perform place rest
        ((script.touch source).note (.acted place .touched))
  | .build scope :: rest, script => .build script scope fun script result? =>
      perform place rest (script.note (.acted place (.built result?)))

def visit (place : String) (script : Script) :
    Activity Script (Except Fault Unit) :=
  let actions := script.actionsAt place
  (perform place actions { script with actions := script.actions.erase place
    }).andThen fun _ script =>
      match script.faults.find? place with
      | some row => .done script (.error row.fault)
      | none => .done script (.ok ())

def enumeratePlace : String := "enumerate"

def versionPlace (source : SourceUnit) : String := "version:" ++ source.path

def extractPlace (source : SourceUnit) : String := "extract:" ++ source.path

def methodsPlace (source : SourceUnit) : String := "methods:" ++ source.path

def dependenciesPlace (method : Method) : String := "deps:" ++ method.name

def scopePlace : String := "scope"

def resolvePlace : String := "resolve"

def layoutPlace : String := "layout"

def sinkPlace : String := "sink"

def allUnits (script : Script) : Activity Script (Except Fault UnitSet) :=
  (visit enumeratePlace script).onSuccess fun _ script =>
    .done script (.ok script.versions.units)

def versionOf (source : SourceUnit) (script : Script) :
    Activity Script (Except Fault VersionToken) :=
  (visit (versionPlace source) script).onSuccess fun _ script =>
    match script.versions.token? source with
    | some token => .done script (.ok token)
    | none => .done script (.error (.because (source.path ++ " vanished")))

def extract (source : SourceUnit) (script : Script) : Activity Script Outcome :=
  (visit (extractPlace source) (script.noteExtracted source)).onSuccess
    fun _ script =>
      .done script (.ok ⟨script.methodsIn source, script.edgesOf source⟩)

def methodsOf (source : SourceUnit) (script : Script) :
    Activity Script (Except Fault (List Method)) :=
  (visit (methodsPlace source) script).onSuccess fun _ script =>
    .done (script.noteExtracted source) (.ok (script.methodsIn source))

def dependenciesOf (method : Method) (script : Script) :
    Activity Script (Except Fault (List Edge)) :=
  (visit (dependenciesPlace method) script).onSuccess fun _ script =>
    .done script (.ok ((script.edgesOf method.source).filter fun edge =>
      edge.caller.id == method.id))

def scopeUnits (script : Script) : ViewScope → UnitSet
  | .listed sources => KeyedSet.ofList sources
  | .inModule name => script.versions.units.filter fun source =>
      Text.startsWith source.path name
  | _ => script.versions.units

def unitsInScope (scope : ViewScope) (script : Script) :
    Activity Script (Except Fault UnitSet) :=
  (visit scopePlace script).onSuccess fun _ script =>
    .done script (.ok (script.scopeUnits scope))

def methodsInScope (units : UnitSet) (script : Script) :
    Activity Script (Except Fault (List Method)) :=
  (visit resolvePlace script).onSuccess fun _ script =>
    .done script (.ok (units.entries.flatMap script.methodsIn))

def applyLayout (layout? : Option LayeredLayout) (graph : Graph)
    (script : Script) : Activity Script Graph :=
  (visit layoutPlace script).andThen fun _ script =>
    .done script (match layout? with
      | some layout => layout.apply graph
      | none => graph)

def display (graph : Graph) (script : Script) : Activity Script Unit :=
  (visit sinkPlace script).andThen fun _ script =>
    .done (script.note (.shown graph.nodeCount graph.linkCount)) ()

def extractor (byMethod : Bool) : SourceUnit → Script → Activity Script Outcome :=
  if byMethod then Host.extractByMethod methodsOf dependenciesOf else extract

def host (byMethod : Bool) (layout? : Option LayeredLayout) : Host Script where
  allUnits := allUnits
  versionOf := versionOf
  extract := extractor byMethod
  unitsInScope := unitsInScope
  methodsInScope := methodsInScope
  layout := applyLayout layout?
  present := display
  resetProgress total script := { script with progress := Progress.reset total }
  countProgress script := { script with progress := script.progress.count }

def bareHost (byMethod : Bool) : Host Script :=
  { host byMethod none with
    layout := Host.layoutNothing
    present := Host.presentNothing
    resetProgress := fun _ script => script
    countProgress := id }

def nestedBuilds (script : Script) : Nat :=
  (script.actions.entries.flatMap fun row =>
    row.actions.filter ScriptAction.startsBuild).length

end Script

end CallGraph
