import CallGraph.Syntax.Tree

namespace CallGraph

/-! How the target of a call was written: `foo()`, `this.foo()`, `super.foo()`,
`name.foo()`, with any other expression in front, or as a construction. -/

inductive Receiver where
  | implicit
  | this
  | super
  | named (name : String)
  | expression
  | construct
  deriving DecidableEq, Repr, Inhabited

/-- One call inside a body.  A construction goes by the name of the type; one by
`this(...)` has no name, since it stays in the type of its caller. -/
structure CallSite where
  name : String
  arity : Nat
  receiver : Receiver
  deriving DecidableEq, Repr, Inhabited

namespace CallSite

def simpleTypeName (type : String) : String :=
  let base := String.ofList (type.toList.takeWhile (· != '<'))
  Text.trim (Text.lastSegment '.' base)

def argumentCount (call : Tree) : Nat :=
  match call.child? .arguments with
  | some arguments =>
      (arguments.children.filter fun child => child.kind != .comment).length
  | none => 0

def receiverOf (source : SourceText) (call : Tree) : Receiver :=
  match call.child? .object with
  | none => .implicit
  | some object =>
      match object.kind with
      | .thisExpression => .this
      | .superExpression => .super
      | .identifier => .named (source.textOf object)
      | _ => .expression

def ofNode? (source : SourceText) (tree : Tree) : Option CallSite :=
  match tree.kind with
  | .methodInvocation => (tree.child? .name).map fun name =>
      ⟨source.textOf name, argumentCount tree, receiverOf source tree⟩
  | .objectCreation => (tree.child? .type).map fun type =>
      ⟨simpleTypeName (source.compactOf type), argumentCount tree, .construct⟩
  | .constructorInvocation =>
      if (tree.child? .constructor).any fun target =>
          target.kind == .thisExpression
      then some ⟨"", argumentCount tree, .construct⟩
      else none
  | _ => none

mutual

def within (source : SourceText) : Tree → List CallSite
  | .node kind field span children =>
      (ofNode? source (.node kind field span children)).toList ++
        withinAll source children
termination_by structural tree => tree

def withinAll (source : SourceText) : List Tree → List CallSite
  | [] => []
  | child :: rest => within source child ++ withinAll source rest
termination_by structural children => children

end

end CallSite

end CallGraph
