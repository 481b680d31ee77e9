import CallGraph.SourceUnit
import CallGraph.Text.Digits

namespace CallGraph

structure Fault where
  causes : List String
  deriving DecidableEq, Repr, Inhabited

namespace Fault

def because (cause : String) : Fault := ⟨[cause]⟩

def during (attempt : String) (fault : Fault) : Fault :=
  ⟨attempt :: fault.causes⟩

def message (fault : Fault) : String := String.intercalate ": " fault.causes

end Fault

/-- The extraction of one unit failed.  The unit contributes no edges for the
round, and the failure is reported with the build. -/
structure AnalysisFailure where
  source : SourceUnit
  reason : String
  deriving DecidableEq, Repr

def AnalysisFailure.message (failure : AnalysisFailure) : String :=
  "analysis failed for " ++ failure.source.path ++ ": " ++ failure.reason

structure UnknownUnits where
  units : UnitSet
  deriving DecidableEq

def UnknownUnits.message (unknown : UnknownUnits) : String :=
  "viewing scope references " ++ Text.decimal unknown.units.size ++
    " unit(s) outside the project"

/-- Why a build ended without a report. -/
inductive BuildError where
  | enumeration (fault : Fault)
  | version (source : SourceUnit) (fault : Fault)
  | scope (fault : Fault)
  | workers (reason : String)
  deriving DecidableEq, Repr

def BuildError.message : BuildError → String
  | enumeration fault => "failed to enumerate source units: " ++ fault.message
  | version source fault =>
      "failed to read version of " ++ source.path ++ ": " ++ fault.message
  | scope fault => "failed to resolve viewing scope: " ++ fault.message
  | workers reason => "failed to start extraction workers: " ++ reason

end CallGraph
