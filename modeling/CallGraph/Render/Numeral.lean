import CallGraph.Decimal.Shortest

namespace CallGraph.Render

/-! Coordinates as text.  In a drawing a number never has an exponent; in a
document it has one when it is very large or very small, and always shows that
it is no whole number. -/

def drawingStyle : NumeralStyle := ⟨.up, none, false⟩

def documentStyle : NumeralStyle := ⟨.even, some (-5, 13), true⟩

def drawingNumeral (value : Float32) : List Char :=
  match BinaryNumber.ofSingleBits value.toBits with
  | .notANumber => "NaN".toList
  | .infinite true => "-inf".toList
  | .infinite false => "inf".toList
  | .finite negative significand exponent =>
      drawingStyle.spellFinite negative significand exponent

def documentNumeral? (value : Float32) : Option (List Char) :=
  match BinaryNumber.ofSingleBits value.toBits with
  | .finite negative significand exponent =>
      some (documentStyle.spellFinite negative significand exponent)
  | _ => none

end CallGraph.Render
