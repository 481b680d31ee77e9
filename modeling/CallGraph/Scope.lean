import CallGraph.SourceUnit
import CallGraph.Text.Digits

namespace CallGraph

/-! Which part of the project a build shows: all of it, one module directory,
one directory, a list of units, or the methods a selector names with all their
transitive callers and callees. -/

inductive ViewScope where
  | wholeProject (includeTests : Bool)
  | inModule (name : String)
  | inDirectory (path : String)
  | listed (sources : List SourceUnit)
  | callChains (selector : String)
  deriving DecidableEq, Repr

namespace ViewScope

instance : Inhabited ViewScope := ⟨wholeProject true⟩

def describe : ViewScope → String
  | wholeProject true => "Whole project (test files included)"
  | wholeProject false => "Whole project (test files excluded)"
  | inModule name => "Module " ++ name
  | inDirectory path => "Directory " ++ path
  | listed sources => Text.decimal sources.length ++ " selected unit(s)"
  | callChains selector => "Upstream/downstream of " ++ selector

end ViewScope

end CallGraph
