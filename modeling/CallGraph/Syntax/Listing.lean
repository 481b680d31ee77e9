import CallGraph.Syntax.Tree
import CallGraph.Text.Digits

namespace CallGraph.Tree

/-! Trees written out as text: a line for each node, parents first.  A line names
the depth of the node, its kind, the field it stands in, and where it starts
and stops. -/

def decimal? (field : String) : Option Nat :=
  if field.isEmpty then none else Text.readDigits? 10 field.toList

def ofLine? (line : String) : Option Listed :=
  match Text.split ' ' line with
  | [depth, kind, field, start, stop] => do
      return ⟨← decimal? depth, NodeKind.ofName kind, NodeField.ofName field,
        ⟨← decimal? start, ← decimal? stop⟩⟩
  | _ => none

def ofListing? (text : String) : Option Tree :=
  (((Text.split '\n' text).filter fun line => !line.isEmpty).mapM ofLine?).bind
    ofPreorder?

end CallGraph.Tree
