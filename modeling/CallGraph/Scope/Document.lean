import CallGraph.Json.Reader
import CallGraph.Json.Writer
import CallGraph.Scope

namespace CallGraph.ViewScope

def toJson : ViewScope → Json
  | wholeProject includeTests =>
      .object [("WholeProject",
        .object [("include_tests", .bool includeTests)])]
  | inModule name => .object [("Module", .string name)]
  | inDirectory path => .object [("Directory", .string path)]
  | listed sources =>
      .object [("Units",
        .array (sources.map fun source => .string source.path))]
  | callChains selector => .object [("UpstreamDownstream", .string selector)]

def listed? (items : List Json) : Option ViewScope :=
  (items.mapM Json.string?).map fun paths => listed (paths.map SourceUnit.mk)

def wholeProject? (members : List (String × Json)) : Option ViewScope :=
  match members.filter fun member => member.1 == "include_tests" with
  | [(_, .bool includeTests)] => some (wholeProject includeTests)
  | _ => none

def ofMember? : String × Json → Option ViewScope
  | ("WholeProject", .object members) => wholeProject? members
  | ("Module", .string name) => some (inModule name)
  | ("Directory", .string path) => some (inDirectory path)
  | ("Units", .array items) => listed? items
  | ("UpstreamDownstream", .string selector) => some (callChains selector)
  | _ => none

def ofJson? : Json → Option ViewScope
  | .object [member] => ofMember? member
  | _ => none

end CallGraph.ViewScope
