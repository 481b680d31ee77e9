import CallGraph.Decimal.Binary
import CallGraph.Text.Digits

namespace CallGraph

/-! The shortest decimals that read back as a given binary number, and their
spelling. -/

inductive Tie where
  | up
  | even
  deriving DecidableEq, Repr

structure Decimal where
  digits : Nat
  exponent : Int
  deriving DecidableEq, Repr, Inhabited

namespace Shortest

/-- The interval of reals that round to a single, in quarters of the place of its
last bit.  The ends belong to it when the significand is even.  Below a power of
two the next number is only half as far away. -/
structure Interval where
  value : Nat
  low : Nat
  high : Nat
  closed : Bool
  place : Int

def interval (significand : Nat) (exponent : Int) : Interval where
  value := 4 * significand
  low :=
    if significand = BinaryNumber.leadingBit ∧ -149 < exponent then 4 * significand - 1
    else 4 * significand - 2
  high := 4 * significand + 2
  closed := significand % 2 == 0
  place := exponent - 2

def binarySide (interval : Interval) (exponent : Int) (quarters : Nat) : Nat :=
  BinaryNumber.timesPower 10
    (BinaryNumber.timesPower 2 quarters interval.place) (-exponent)

def decimalSide (interval : Interval) (exponent : Int) (digits : Nat) : Nat :=
  BinaryNumber.timesPower 2 (BinaryNumber.timesPower 10 digits exponent)
    (-interval.place)

def isInside (interval : Interval) (exponent : Int) (digits : Nat) : Bool :=
  let decimal := decimalSide interval exponent digits
  let low := binarySide interval exponent interval.low
  let high := binarySide interval exponent interval.high
  if interval.closed then low ≤ decimal && decimal ≤ high
  else low < decimal && decimal < high

def onGrid? (tie : Tie) (interval : Interval) (exponent : Int) :
    Option Decimal :=
  let value := binarySide interval exponent interval.value
  let step := decimalSide interval exponent 1
  let below := value / step
  let above := below + 1
  match isInside interval exponent below, isInside interval exponent above with
  | false, false => none
  | true, false => some ⟨below, exponent⟩
  | false, true => some ⟨above, exponent⟩
  | true, true =>
      let rest := value % step
      if 2 * rest < step then some ⟨below, exponent⟩
      else if 2 * rest > step then some ⟨above, exponent⟩
      else if tie = .even ∧ below % 2 = 0 then some ⟨below, exponent⟩
      else some ⟨above, exponent⟩

/-! The coarsest grid with a hit has the fewest digits.  No single reaches
`10 ^ 39`, and the finest grid tried separates all of them. -/

def search (tie : Tie) (interval : Interval) : Nat → Int → Decimal
  | 0, exponent => ⟨0, exponent⟩
  | steps + 1, exponent =>
      match onGrid? tie interval exponent with
      | some decimal => decimal
      | none => search tie interval steps (exponent - 1)

def ofSingle (tie : Tie) (significand : Nat) (exponent : Int) : Decimal :=
  if significand = 0 then ⟨0, 0⟩
  else search tie (interval significand exponent) 100 39

end Shortest

/-- How numbers are spelled: the tie rule, between which positions of the point
they are written without an exponent, and whether whole numbers keep a point. -/
structure NumeralStyle where
  tie : Tie
  plain : Option (Int × Int)
  keepsPoint : Bool

namespace NumeralStyle

def zeros (count : Int) : List Char := List.replicate count.toNat '0'

def isPlain (style : NumeralStyle) (point : Int) : Bool :=
  match style.plain with
  | none => true
  | some (first, last) => first ≤ point && point ≤ last

def spellPlain (style : NumeralStyle) (digits : List Char) (point : Int) :
    List Char :=
  if point ≤ 0 then ['0', '.'] ++ zeros (-point) ++ digits
  else if point < digits.length then
    digits.take point.toNat ++ '.' :: digits.drop point.toNat
  else
    digits ++ zeros (point - digits.length) ++
      if style.keepsPoint then ['.', '0'] else []

def spellExponent (exponent : Int) : List Char :=
  'e' :: (if exponent < 0 then '-' else '+') ::
    Text.decimalDigits exponent.natAbs

def spellScientific (digits : List Char) (point : Int) : List Char :=
  let front :=
    match digits with
    | lead :: next :: rest => lead :: '.' :: next :: rest
    | short => short
  front ++ spellExponent (point - 1)

def spellDecimal (style : NumeralStyle) (decimal : Decimal) : List Char :=
  if decimal.digits = 0 then
    if style.keepsPoint then ['0', '.', '0'] else ['0']
  else
    let digits := Text.decimalDigits decimal.digits
    let point := (digits.length : Int) + decimal.exponent
    if style.isPlain point then style.spellPlain digits point
    else spellScientific digits point

def spellFinite (style : NumeralStyle) (negative : Bool) (significand : Nat)
    (exponent : Int) : List Char :=
  (if negative then ['-'] else []) ++
    style.spellDecimal (Shortest.ofSingle style.tie significand exponent)

end NumeralStyle

end CallGraph
