import CallGraph.Decimal.Binary

namespace CallGraph

inductive Toml where
  | string (text : String)
  | integer (value : Int)
  | float (value : BinaryNumber)
  | boolean (value : Bool)
  | moment
  | array (items : List Toml)
  | table (members : List (String × Toml))
  deriving Inhabited

end CallGraph
