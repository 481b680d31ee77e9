import CallGraph.Text.Digits

namespace CallGraph

/-! A binary floating-point format: how many bits a significand has, and the
exponents of the smallest and of the largest numbers' last places. -/

structure BinaryFormat where
  precision : Nat
  lowest : Int
  highest : Int
  deriving DecidableEq, Repr

namespace BinaryFormat

def single : BinaryFormat := ⟨24, -149, 104⟩

def double : BinaryFormat := ⟨53, -1074, 971⟩

def bound (format : BinaryFormat) : Nat := Nat.pow 2 format.precision

end BinaryFormat

/-- A floating-point number.  A finite one is `significand · 2 ^ exponent`. -/
inductive BinaryNumber where
  | notANumber
  | infinite (negative : Bool)
  | finite (negative : Bool) (significand : Nat) (exponent : Int)
  deriving DecidableEq, Repr, Inhabited

namespace BinaryNumber

def isFinite : BinaryNumber → Bool
  | finite .. => true
  | _ => false

def isNegative : BinaryNumber → Bool
  | notANumber => false
  | infinite negative => negative
  | finite negative significand _ => negative && significand != 0

/-! The bits of a single: sign, eight bits of exponent, 23 of significand.  The
leading bit of a significand is not written; the smallest numbers have none. -/

def signBit : Nat := 0x80000000

def leadingBit : Nat := 0x800000

def ofSingleBits (bits : UInt32) : BinaryNumber :=
  let code : Nat := bits.toNat
  let negative := code / signBit == 1
  let biased : Nat := code / leadingBit % 256
  let fraction : Nat := code % leadingBit
  if biased == 255 then
    if fraction == 0 then infinite negative else notANumber
  else if biased == 0 then finite negative fraction (-149)
  else finite negative (leadingBit + fraction) ((biased : Int) - 150)

def singleBits : BinaryNumber → UInt32
  | notANumber => 0x7fc00000
  | infinite negative => if negative then 0xff800000 else 0x7f800000
  | finite negative significand exponent =>
      let sign := if negative then signBit else 0
      if significand < leadingBit then UInt32.ofNat (sign + significand)
      else
        UInt32.ofNat
          (sign + (exponent + 150).toNat * leadingBit +
            (significand - leadingBit))

def roundHalfEven (numerator denominator : Nat) : Nat :=
  let whole := numerator / denominator
  let rest := numerator % denominator
  if 2 * rest < denominator then whole
  else if 2 * rest > denominator then whole + 1
  else if whole % 2 == 0 then whole
  else whole + 1

def timesPower (base : Nat) (number : Nat) (exponent : Int) : Nat :=
  if 0 ≤ exponent then number * Nat.pow base exponent.toNat else number

/-- The quotient `numerator / denominator` in units of `2 ^ exponent`. -/
def roundAt (numerator denominator : Nat) (exponent : Int) : Nat :=
  roundHalfEven (timesPower 2 numerator (-exponent))
    (timesPower 2 denominator exponent)

def placeFor (format : BinaryFormat) (numerator denominator : Nat) : Int :=
  let estimate : Int :=
    (numerator.log2 : Int) - denominator.log2 - format.precision
  let exponent :=
    if roundAt numerator denominator estimate < format.bound then estimate
    else if roundAt numerator denominator (estimate + 1) < format.bound
    then estimate + 1
    else estimate + 2
  max exponent format.lowest

def ofRatio (format : BinaryFormat) (negative : Bool)
    (numerator denominator : Nat) : BinaryNumber :=
  if numerator = 0 then finite negative 0 format.lowest
  else
    let exponent := placeFor format numerator denominator
    let significand := roundAt numerator denominator exponent
    if exponent ≤ format.highest then finite negative significand exponent
    else infinite negative

def widest : Int := 400

def ofDecimal (format : BinaryFormat) (negative : Bool) (digits : Nat)
    (exponent : Int) : BinaryNumber :=
  let point : Int := (Text.decimalDigits digits).length + exponent
  if digits = 0 || point < -widest then finite negative 0 format.lowest
  else if widest < point then infinite negative
  else
    ofRatio format negative (timesPower 10 digits exponent)
      (timesPower 10 1 (-exponent))

def narrow (format : BinaryFormat) : BinaryNumber → BinaryNumber
  | finite negative significand exponent =>
      ofRatio format negative (timesPower 2 significand exponent)
        (timesPower 2 1 (-exponent))
  | other => other

end BinaryNumber

end CallGraph
