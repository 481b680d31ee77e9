namespace CallGraph

/-! JSON values.  A number is kept as it is written, and an object keeps its
members in order, repeated names included. -/

inductive Json where
  | null
  | bool (value : Bool)
  | number (text : String)
  | string (text : String)
  | array (items : List Json)
  | object (members : List (String × Json))
  deriving Repr, Inhabited

end CallGraph
