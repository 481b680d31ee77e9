import CallGraph.Text.Utf8

namespace CallGraph.Digest

/-! SipHash-1-3 with both key words zero: one mixing round per eight bytes and
three at the end. -/

structure Lanes where
  v0 : UInt64
  v1 : UInt64
  v2 : UInt64
  v3 : UInt64

def rotateLeft (word : UInt64) (count : UInt64) : UInt64 :=
  (word <<< count) ||| (word >>> (64 - count))

def Lanes.start : Lanes where
  v0 := 0x736f6d6570736575
  v1 := 0x646f72616e646f6d
  v2 := 0x6c7967656e657261
  v3 := 0x7465646279746573

def Lanes.round (lanes : Lanes) : Lanes :=
  let v0 := lanes.v0 + lanes.v1
  let v1 := rotateLeft lanes.v1 13 ^^^ v0
  let v0 := rotateLeft v0 32
  let v2 := lanes.v2 + lanes.v3
  let v3 := rotateLeft lanes.v3 16 ^^^ v2
  let v0 := v0 + v3
  let v3 := rotateLeft v3 21 ^^^ v0
  let v2 := v2 + v1
  let v1 := rotateLeft v1 17 ^^^ v2
  let v2 := rotateLeft v2 32
  { v0, v1, v2, v3 }

def Lanes.absorb (lanes : Lanes) (block : UInt64) : Lanes :=
  let mixed := { lanes with v3 := lanes.v3 ^^^ block }.round
  { mixed with v0 := mixed.v0 ^^^ block }

def Lanes.finish (lanes : Lanes) : UInt64 :=
  let lanes := { lanes with v2 := lanes.v2 ^^^ 0xff }.round.round.round
  lanes.v0 ^^^ lanes.v1 ^^^ lanes.v2 ^^^ lanes.v3

def wordOfBytes : List UInt8 → UInt64
  | [] => 0
  | low :: rest => low.toUInt64 ||| (wordOfBytes rest <<< 8)

def bytesOfNat : Nat → Nat → List UInt8
  | 0, _ => []
  | width + 1, number =>
      UInt8.ofNat (number % 256) :: bytesOfNat width (number / 256)

def wordBytes (word : UInt64) : List UInt8 := bytesOfNat 8 word.toNat

def absorbAll (length : Nat) (lanes : Lanes) : List UInt8 → Lanes
  | b0 :: b1 :: b2 :: b3 :: b4 :: b5 :: b6 :: b7 :: rest =>
      absorbAll length
        (lanes.absorb (wordOfBytes [b0, b1, b2, b3, b4, b5, b6, b7])) rest
  | rest => lanes.absorb (wordOfBytes rest ||| (UInt64.ofNat length <<< 56))

def ofBytes (bytes : List UInt8) : UInt64 :=
  (absorbAll bytes.length Lanes.start bytes).finish

/-- A text goes in as its bytes and an end mark that no text contains. -/
def textBytes (text : String) : List UInt8 := Utf8.encode text ++ [0xFF]

end CallGraph.Digest
