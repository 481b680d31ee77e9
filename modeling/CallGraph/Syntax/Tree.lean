import CallGraph.Text.Blank
import CallGraph.Text.Utf8

namespace CallGraph

/-! What the named nodes of a syntax tree stand for, as far as it matters for
declarations and calls. -/

inductive NodeKind where
  | typeDeclaration
  | enumBodyDeclarations
  | methodDeclaration
  | constructorDeclaration
  | formalParameter
  | spreadParameter
  | variableDeclarator
  | modifiers
  | identifier
  | methodInvocation
  | objectCreation
  | constructorInvocation
  | thisExpression
  | superExpression
  | comment
  | other
  deriving DecidableEq, Repr, Inhabited

namespace NodeKind

def ofName : String → NodeKind
  | "class_declaration" => typeDeclaration
  | "interface_declaration" => typeDeclaration
  | "enum_declaration" => typeDeclaration
  | "record_declaration" => typeDeclaration
  | "enum_body_declarations" => enumBodyDeclarations
  | "method_declaration" => methodDeclaration
  | "constructor_declaration" => constructorDeclaration
  | "formal_parameter" => formalParameter
  | "spread_parameter" => spreadParameter
  | "variable_declarator" => variableDeclarator
  | "modifiers" => modifiers
  | "identifier" => identifier
  | "method_invocation" => methodInvocation
  | "object_creation_expression" => objectCreation
  | "explicit_constructor_invocation" => constructorInvocation
  | "this" => thisExpression
  | "super" => superExpression
  | name =>
      if "comment".toList.reverse.isPrefixOf name.toList.reverse then comment
      else other

end NodeKind

inductive NodeField where
  | arguments
  | parameters
  | type
  | name
  | dimensions
  | body
  | object
  | constructor
  | none
  deriving DecidableEq, Repr, Inhabited

namespace NodeField

def ofName : String → NodeField
  | "arguments" => arguments
  | "parameters" => parameters
  | "type" => type
  | "name" => name
  | "dimensions" => dimensions
  | "body" => body
  | "object" => object
  | "constructor" => constructor
  | _ => none

end NodeField

structure Span where
  start : Nat
  stop : Nat
  deriving DecidableEq, Repr, Inhabited

inductive Tree where
  | node (kind : NodeKind) (field : NodeField) (span : Span)
      (children : List Tree)
  deriving Inhabited

namespace Tree

def kind : Tree → NodeKind
  | node kind _ _ _ => kind

def field : Tree → NodeField
  | node _ field _ _ => field

def span : Tree → Span
  | node _ _ span _ => span

def children : Tree → List Tree
  | node _ _ _ children => children

def child? (tree : Tree) (wanted : NodeField) : Option Tree :=
  tree.children.find? fun child => child.field == wanted

mutual

def preorder : Tree → List Tree
  | node kind field span children =>
      node kind field span children :: preorderAll children
termination_by structural tree => tree

def preorderAll : List Tree → List Tree
  | [] => []
  | child :: rest => preorder child ++ preorderAll rest
termination_by structural children => children

end

structure Listed where
  depth : Nat
  kind : NodeKind
  field : NodeField
  span : Span
  deriving Inhabited

/-- Read from the end, the subtrees that were gathered last are the ones that
follow a node; those that are deeper lie below it. -/
structure Gathered where
  depth : Nat
  tree : Tree

def gather (listed : Listed) (following : List Gathered) : List Gathered :=
  let isBelow := fun (gathered : Gathered) => listed.depth < gathered.depth
  ⟨listed.depth, node listed.kind listed.field listed.span
    ((following.takeWhile isBelow).map Gathered.tree)⟩ ::
      following.dropWhile isBelow

def ofPreorder? (listing : List Listed) : Option Tree :=
  ((listing.foldr gather []).head?).map Gathered.tree

end Tree

/-- The text that a tree was made of, by its bytes. -/
structure SourceText where
  bytes : List UInt8
  deriving DecidableEq, Inhabited

namespace SourceText

def ofText (text : String) : SourceText := ⟨Utf8.encode text⟩

def slice (source : SourceText) (span : Span) : String :=
  (Utf8.decode? ((source.bytes.drop span.start).take
    (span.stop - span.start))).getD ""

def textOf (source : SourceText) (tree : Tree) : String := source.slice tree.span

def compactOf (source : SourceText) (tree : Tree) : String :=
  Text.compact (source.textOf tree)

end SourceText

end CallGraph
