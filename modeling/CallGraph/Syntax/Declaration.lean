import CallGraph.Method
import CallGraph.Syntax.Tree

namespace CallGraph

structure Declaration where
  method : Method
  body : Option Tree

namespace Declaration

def formalParam? (source : SourceText) (parameter : Tree) : Option Param := do
  let type ← parameter.child? .type
  let name ← parameter.child? .name
  let dimensions :=
    ((parameter.child? .dimensions).map source.compactOf).getD ""
  return ⟨source.compactOf type ++ dimensions, source.textOf name⟩

def spreadName? (parameter : Tree) : Option Tree :=
  match parameter.children.find? fun child =>
      child.kind == .variableDeclarator with
  | some declarator => declarator.child? .name
  | none => parameter.children.reverse.find? fun child =>
      child.kind == .identifier

def spreadParam? (source : SourceText) (parameter : Tree) : Option Param := do
  let type ← parameter.children.find? fun child => child.kind != .modifiers
  let name ← spreadName? parameter
  return ⟨source.compactOf type ++ "...", source.textOf name⟩

def param? (source : SourceText) (parameter : Tree) : Option Param :=
  match parameter.kind with
  | .formalParameter => formalParam? source parameter
  | .spreadParameter => spreadParam? source parameter
  | _ => none

def params (source : SourceText) (declaration : Tree) : List Param :=
  match declaration.child? .parameters with
  | some parameters => parameters.children.filterMap (param? source)
  | none => []

def typeName (types : List String) : String := String.intercalate "." types

def declared? (owner : SourceUnit) (source : SourceText) (types : List String)
    (declaration : Tree) : Option Declaration :=
  (declaration.child? .name).map fun name =>
    ⟨Method.declare owner (typeName types) (source.textOf name)
      (params source declaration), declaration.child? .body⟩

mutual

def ofMember (owner : SourceUnit) (source : SourceText) (types : List String) :
    Tree → List Declaration
  | .node kind field span children =>
      match kind with
      | .methodDeclaration =>
          (declared? owner source types
            (.node kind field span children)).toList
      | .constructorDeclaration =>
          (declared? owner source types
            (.node kind field span children)).toList
      | .enumBodyDeclarations => ofMembers owner source types children
      | .typeDeclaration =>
          match children.find? fun child => child.field == .name with
          | some name => ofBody owner source (types ++ [source.textOf name]) children
          | none => []
      | _ => []
termination_by structural tree => tree

def ofMembers (owner : SourceUnit) (source : SourceText)
    (types : List String) : List Tree → List Declaration
  | [] => []
  | member :: rest =>
      ofMember owner source types member ++ ofMembers owner source types rest
termination_by structural members => members

def ofBodyNode (owner : SourceUnit) (source : SourceText)
    (types : List String) : Tree → List Declaration
  | .node _ _ _ children => ofMembers owner source types children
termination_by structural tree => tree

def ofBody (owner : SourceUnit) (source : SourceText) (types : List String) :
    List Tree → List Declaration
  | [] => []
  | child :: rest =>
      if child.field == .body then ofBodyNode owner source types child
      else ofBody owner source types rest
termination_by structural children => children

end

def ofRoot (owner : SourceUnit) (source : SourceText) (root : Tree) :
    List Declaration :=
  ofMembers owner source []
    (root.children.filter fun child => child.kind == .typeDeclaration)

end Declaration

end CallGraph
