import CallGraph.SymbolTable
import CallGraph.Syntax.CallSite
import CallGraph.Syntax.Declaration
import CallGraph.Text.Uppercase

namespace CallGraph

/-! Which declarations a call may reach.  Calls are resolved by simple name and
number of arguments; how the target was written narrows the candidates. -/

namespace Resolution

def simpleName (type : String) : String := Text.lastSegment '.' type

def narrowed (passes : Method → Bool) (candidates : List Method) :
    List Method :=
  if (candidates.filter passes).isEmpty then candidates
  else candidates.filter passes

theorem mem_of_mem_narrowed {passes : Method → Bool} {method : Method}
    {candidates : List Method} (hmem : method ∈ narrowed passes candidates) :
    method ∈ candidates := by
  unfold narrowed at hmem
  split at hmem
  · exact hmem
  · exact (List.mem_filter.mp hmem).1

def candidates (symbols : SymbolTable) (name : String) (arity : Nat) :
    List Method :=
  (symbols.lookup name).filter fun method => method.params.length == arity

def isInSameType (caller method : Method) : Bool :=
  method.source == caller.source &&
    method.enclosingType == caller.enclosingType

def isInOuterType (caller method : Method) : Bool :=
  method.source == caller.source &&
    Text.startsWith caller.enclosingType (method.enclosingType ++ ".")

def isInTypeNamed (name : String) (method : Method) : Bool :=
  simpleName method.enclosingType == name

def constructedType (caller : Method) (site : CallSite) : String :=
  if site.name.isEmpty then simpleName caller.enclosingType else site.name

def constructors (symbols : SymbolTable) (caller : Method) (site : CallSite) :
    List Method :=
  let type := constructedType caller site
  (candidates symbols type site.arity).filter (isInTypeNamed type)

def implicitTargets (caller : Method) (candidates : List Method) :
    List Method :=
  let own := candidates.filter (isInSameType caller)
  if own.isEmpty then narrowed (isInOuterType caller) candidates else own

def namedTargets (name : String) (candidates : List Method) : List Method :=
  if Text.startsUppercase name then narrowed (isInTypeNamed name) candidates
  else candidates

def targets (symbols : SymbolTable) (caller : Method) (site : CallSite) :
    List Method :=
  let found := candidates symbols site.name site.arity
  match site.receiver with
  | .construct => constructors symbols caller site
  | .this => narrowed (isInSameType caller) found
  | .implicit => implicitTargets caller found
  | .super => found.filter fun method =>
      !(method.enclosingType == caller.enclosingType)
  | .named name => namedTargets name found
  | .expression => found

def edgesOfSite (symbols : SymbolTable) (caller : Method) (site : CallSite) :
    List Edge :=
  (targets symbols caller site).map fun callee => ⟨caller, callee⟩

def edgesOf (symbols : SymbolTable) (source : SourceText)
    (declaration : Declaration) : List Edge :=
  match declaration.body with
  | none => []
  | some body =>
      (CallSite.within source body).flatMap
        (edgesOfSite symbols declaration.method)

end Resolution

end CallGraph
