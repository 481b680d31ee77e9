import CallGraph.Cache
import CallGraph.Extraction
import CallGraph.Project
import CallGraph.Resolution

namespace CallGraph

/-! An analyzer answers for the units of a project.  It keeps an index of all
declarations, and the edges of a unit for as long as they are still right. -/

abbrev Parser := String → Tree

/-- The edges of a unit as they were last extracted, with what they depend on:
the state of the index and the version of the unit. -/
structure UnitEdges where
  source : SourceUnit
  epoch : Nat
  token : VersionToken
  edges : List Edge
  deriving DecidableEq

instance : Keyed UnitEdges String := ⟨fun unit => unit.source.path⟩

/-- A project with an index of everything that it declares.  The index is
brought up to date when it is first needed after an enumeration. -/
structure Analyzer where
  project : Project
  symbols : SymbolTable
  syncedEpoch : Nat
  extracted : KeyedSet UnitEdges

namespace Analyzer

def ofProject (project : Project) : Analyzer := ⟨project, .empty, 0, ∅⟩

def withProject (analyzer : Analyzer) (project : Project) : Analyzer :=
  { analyzer with project := project }

def withSymbols (analyzer : Analyzer) (symbols : SymbolTable) : Analyzer :=
  { analyzer with symbols := symbols }

variable (parser : Parser) (files : FileSystem)

def readUnit (analyzer : Analyzer) (source : SourceUnit) :
    Except Fault String :=
  let path := analyzer.project.pathOf source
  match files.readText path with
  | .ok text => .ok text
  | .error fault =>
      .error ((Fault.because fault.message).during
        ("Failed to read " ++ path.text))

def declarationsOf (source : SourceUnit) (text : String) : List Declaration :=
  Declaration.ofRoot source (SourceText.ofText text) (parser text)

def refreshUnit (analyzer : Analyzer) (source : SourceUnit) : Analyzer :=
  let dropped := analyzer.withSymbols (analyzer.symbols.removeUnit source)
  match analyzer.project.versionOf source files with
  | .error _ => dropped
  | .ok token =>
      if analyzer.symbols.token? source == some token then analyzer
      else
        match analyzer.readUnit files source with
        | .error _ => dropped
        | .ok text =>
            analyzer.withSymbols (analyzer.symbols.replaceUnit source token
              ((declarationsOf parser source text).map Declaration.method))

def forgetMissing (analyzer : Analyzer) : Analyzer :=
  let known := analyzer.project.units
  { analyzer with
    extracted := analyzer.extracted.filter fun unit =>
      known.contains unit.source
    symbols := (analyzer.symbols.units.filter fun source =>
      !known.contains source).foldl SymbolTable.removeUnit analyzer.symbols }

def refresh (analyzer : Analyzer) : Analyzer :=
  let analyzer := analyzer.project.units.entries.foldl
    (refreshUnit parser files) analyzer.forgetMissing
  { analyzer with syncedEpoch := analyzer.project.epoch }

def sync (analyzer : Analyzer) : Analyzer :=
  let analyzer :=
    analyzer.withProject (analyzer.project.currentUnits files).1
  if analyzer.syncedEpoch = analyzer.project.epoch then analyzer
  else analyzer.refresh parser files

def methodsOf (analyzer : Analyzer) (source : SourceUnit) :
    Analyzer × List Method :=
  let analyzer := analyzer.sync parser files
  (analyzer, analyzer.symbols.methodsIn source)

def methodsInScope (analyzer : Analyzer) (units : UnitSet) :
    Analyzer × List Method :=
  let analyzer := analyzer.sync parser files
  (analyzer, units.entries.flatMap analyzer.symbols.methodsIn)

def yieldOf (analyzer : Analyzer) (source : SourceUnit) :
    Except Fault (VersionToken × Extraction) := do
  let token ← analyzer.project.versionOf source files
  let text ← analyzer.readUnit files source
  let declarations := declarationsOf parser source text
  return (token, ⟨declarations.map Declaration.method,
    declarations.flatMap
      (Resolution.edgesOf analyzer.symbols (SourceText.ofText text))⟩)

def keepEdges (analyzer : Analyzer) (source : SourceUnit)
    (token : VersionToken) (edges : List Edge) : Analyzer :=
  { analyzer with
    extracted := analyzer.extracted.put
      ⟨source, analyzer.syncedEpoch, token, edges⟩ }

def extract (analyzer : Analyzer) (source : SourceUnit) :
    Analyzer × Outcome :=
  let analyzer := analyzer.sync parser files
  match analyzer.yieldOf parser files source with
  | .error fault => (analyzer, .error fault)
  | .ok (token, extraction) =>
      (analyzer.keepEdges source token extraction.edges, .ok extraction)

def keptEdges? (analyzer : Analyzer) (source : SourceUnit)
    (token : VersionToken) : Option (List Edge) :=
  match analyzer.extracted.find? source.path with
  | none => none
  | some kept =>
      if kept.epoch = analyzer.syncedEpoch ∧ kept.token = token then
        some kept.edges
      else none

def edgesFrom (method : Method) (edges : List Edge) : List Edge :=
  edges.filter fun edge => edge.caller.id == method.id

def dependenciesOf (analyzer : Analyzer) (method : Method) :
    Analyzer × Except Fault (List Edge) :=
  let analyzer := analyzer.sync parser files
  match analyzer.project.versionOf method.source files with
  | .error fault => (analyzer, .error fault)
  | .ok token =>
      match analyzer.keptEdges? method.source token with
      | some edges => (analyzer, .ok (edgesFrom method edges))
      | none =>
          let (analyzer, outcome) := analyzer.extract parser files method.source
          (analyzer, outcome.map fun extraction =>
            edgesFrom method extraction.edges)

end Analyzer

end CallGraph
