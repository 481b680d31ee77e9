import CallGraph.Digest
import CallGraph.SourceUnit
import CallGraph.Text.Digits

namespace CallGraph

/-- The identity of a declaration: a digest of its unit, enclosing type, name
and parameter types. -/
structure MethodId where
  word : UInt64
  deriving DecidableEq, Repr, Inhabited

structure Param where
  type : String
  name : String
  deriving DecidableEq, Repr, Inhabited

/-- A method or constructor declared in one source unit.  The fields beside
`id` are for display and for resolution. -/
structure Method where
  id : MethodId
  source : SourceUnit
  enclosingType : String
  name : String
  params : List Param
  deriving DecidableEq, Repr, Inhabited

namespace Method

def identityBytes (source : SourceUnit) (enclosingType name : String)
    (params : List Param) : List UInt8 :=
  Digest.textBytes source.path ++ Digest.textBytes enclosingType ++
    Digest.textBytes name ++
      params.flatMap fun param => Digest.textBytes param.type

def identity (source : SourceUnit) (enclosingType name : String)
    (params : List Param) : MethodId :=
  ⟨Digest.ofBytes (identityBytes source enclosingType name params)⟩

def declare (source : SourceUnit) (enclosingType name : String)
    (params : List Param) : Method where
  id := identity source enclosingType name params
  source := source
  enclosingType := enclosingType
  name := name
  params := params

def qualifiedName (method : Method) : String :=
  method.enclosingType ++ "::" ++ method.name

def signature (method : Method) : String :=
  method.qualifiedName ++ "(" ++
    String.intercalate ","
      (method.params.map fun param => param.type ++ " " ++ param.name) ++ ")"

end Method

/-- A selector names methods in one of three forms. -/
inductive Selector where
  | identity (id : MethodId)
  | signature (compacted : String)
  | qualified (enclosingType name : String)
  | nothing
  deriving DecidableEq, Repr

namespace Selector

/-! Sixteen bytes that read as a hexadecimal number.  A plus sign may stand in
for the first digit. -/

def identity? (characters : List Char) : Option MethodId :=
  if (Utf8.encodeChars characters).length == 16 then
    let digits :=
      match characters with
      | '+' :: rest => rest
      | _ => characters
    (Text.readDigits? 16 digits).map fun number => ⟨UInt64.ofNat number⟩
  else none

def parse (text : String) : Selector :=
  let trimmed := Text.trim text
  match identity? trimmed.toList with
  | some id => identity id
  | none =>
      if trimmed.toList.contains '(' then signature (Text.compact trimmed)
      else
        match Text.cutAt? [':', ':'] trimmed.toList with
        | some (enclosingType, name) =>
            qualified (String.ofList enclosingType) (String.ofList name)
        | none => nothing

def selects : Selector → Method → Bool
  | identity id, method => method.id == id
  | signature compacted, method => Text.compact method.signature == compacted
  | qualified enclosingType name, method =>
      enclosingType == method.enclosingType && name == method.name
  | nothing, _ => false

end Selector

def Method.matches (method : Method) (selector : String) : Bool :=
  (Selector.parse selector).selects method

/-- A call edge.  All calls from one method to another are one edge, so an edge
is told apart by the identities of its ends. -/
structure Edge where
  caller : Method
  callee : Method
  deriving DecidableEq, Repr, Inhabited

structure EdgeKey where
  caller : UInt64
  callee : UInt64
  deriving DecidableEq, Repr

namespace EdgeKey

def precedes (first second : EdgeKey) : Bool :=
  first.caller < second.caller ||
    (first.caller == second.caller && first.callee < second.callee)

theorem precedes_iff {first second : EdgeKey} :
    first.precedes second = true ↔
      first.caller.toNat < second.caller.toNat ∨
        first.caller = second.caller ∧
          first.callee.toNat < second.callee.toNat := by
  simp [precedes, UInt64.lt_iff_toNat_lt]

end EdgeKey

instance : KeyOrder EdgeKey where
  before := EdgeKey.precedes
  before_irrefl key := by simp [EdgeKey.precedes]
  before_trans {first second third} hfirst hsecond := by
    rw [EdgeKey.precedes_iff] at *
    rcases hfirst with hfirst | ⟨heq, hfirst⟩ <;>
      rcases hsecond with hsecond | ⟨heq', hsecond⟩
    · exact Or.inl (Nat.lt_trans hfirst hsecond)
    · exact Or.inl (heq' ▸ hfirst)
    · exact Or.inl (heq ▸ hsecond)
    · exact Or.inr ⟨heq.trans heq', Nat.lt_trans hfirst hsecond⟩
  eq_of_not_before {first second} hfirst hsecond := by
    rw [← Bool.not_eq_true, EdgeKey.precedes_iff] at *
    obtain ⟨caller, callee⟩ := first
    obtain ⟨caller', callee'⟩ := second
    have hcaller : caller = caller' :=
      UInt64.toNat_inj.mp (by simp only [not_or] at hfirst hsecond; omega)
    subst hcaller
    have hcallee : callee = callee' :=
      UInt64.toNat_inj.mp (by simp at hfirst hsecond; omega)
    rw [hcallee]

namespace Edge

def key (edge : Edge) : EdgeKey := ⟨edge.caller.id.word, edge.callee.id.word⟩

def touches (edge : Edge) (source : SourceUnit) : Bool :=
  edge.caller.source == source || edge.callee.source == source

end Edge

instance : Keyed Edge EdgeKey := ⟨Edge.key⟩

abbrev EdgeSet := KeyedSet Edge

end CallGraph
