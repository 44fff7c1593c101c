/-! Binary floating point by its bits. A number is a whole significand times a
power of two; every operation here is exact arithmetic on the two, rounded once
at the end, so nothing depends on the machine. A decimal, too, is read as the number
nearest to it, however many digits it has (`Binary64.ofDecimal?`); a reader that trades
this for speed, and only does its best, can be off in the last place. -/
namespace ShaderGraph

def twoTo (n : Nat) : Nat := Nat.pow 2 n
def tenTo (n : Nat) : Nat := Nat.pow 10 n

/-- The whole number nearest to `a / b`, and the even one of two that are equally near. -/
def roundDiv (a b : Nat) : Nat :=
  let q := a / b
  let r := a % b
  if 2 * r < b || (2 * r == b && q % 2 == 0) then q else q + 1

structure BinaryFormat where
  fractionBits : Nat
  exponentBits : Nat

namespace BinaryFormat

def binary64 : BinaryFormat := ⟨52, 11⟩
def binary32 : BinaryFormat := ⟨23, 8⟩

/-- The power of two of which every finite number is a multiple. -/
def leastExponent (f : BinaryFormat) : Int := 2 - twoTo (f.exponentBits - 1) - f.fractionBits

/-- The bits of infinity; those of every finite number are below, those of no number above. -/
def infinity (f : BinaryFormat) : Nat := (twoTo f.exponentBits - 1) * twoTo f.fractionBits

def signBit (f : BinaryFormat) : Nat := twoTo (f.fractionBits + f.exponentBits)

def significand (f : BinaryFormat) (bits : Nat) : Nat :=
  if bits < twoTo f.fractionBits then bits
  else bits % twoTo f.fractionBits + twoTo f.fractionBits

def exponent (f : BinaryFormat) (bits : Nat) : Int :=
  f.leastExponent + (bits / twoTo f.fractionBits - 1 : Nat)

/-- The largest `e` with `2 ^ e ≤ a / b`. -/
def binaryOrder (a b : Nat) : Int :=
  let e : Int := a.log2 - b.log2
  if b * twoTo e.toNat ≤ a * twoTo (-e).toNat then e else e - 1

/-- The bits of the number nearest to `a / b`, of two equally near ones the even
one, and of infinity when the quotient is too large. -/
def nearest (f : BinaryFormat) (a b : Nat) : Nat :=
  if a = 0 then 0
  else
    let e := max (binaryOrder a b - f.fractionBits) f.leastExponent
    let m := roundDiv (a * twoTo (-e).toNat) (b * twoTo e.toNat)
    min ((e - f.leastExponent).toNat * twoTo f.fractionBits + m) f.infinity

end BinaryFormat

/-- A number in the format of 64 bits. -/
structure Binary64 where
  bits : UInt64
deriving DecidableEq

/-- A number in the format of 32 bits. -/
structure Binary32 where
  bits : UInt32
deriving DecidableEq

namespace Binary32

def zero : Binary32 := ⟨0⟩

/-- The number nearest to `a / b`. -/
def ofQuotient (negative : Bool) (a b : Nat) : Binary32 :=
  let f := BinaryFormat.binary32
  ⟨(f.nearest a b + if negative then f.signBit else 0).toUInt32⟩

end Binary32

namespace Binary64

abbrev format : BinaryFormat := .binary64

def isNegative (x : Binary64) : Bool := format.signBit ≤ x.bits.toNat
def magnitude (x : Binary64) : Nat := x.bits.toNat % format.signBit
def isFinite (x : Binary64) : Bool := x.magnitude < format.infinity
def isInfinite (x : Binary64) : Bool := x.magnitude == format.infinity
def significand (x : Binary64) : Nat := format.significand x.magnitude
def exponent (x : Binary64) : Int := format.exponent x.magnitude

def signed (negative : Bool) (magnitude : Nat) : Binary64 :=
  ⟨(magnitude + if negative then format.signBit else 0).toUInt64⟩

def one : Binary64 := ⟨0x3ff0000000000000⟩

/-- The number nearest to an integer. -/
def ofInt (n : Int) : Binary64 := signed (n < 0) (format.nearest n.natAbs 1)

/-- The number nearest to `digits * 10 ^ exponent`, unless that is too large for
the format. Decimals far outside its range are not multiplied out. -/
def ofDecimal? (negative : Bool) (digits : Nat) (exponent : Int) : Option Binary64 :=
  let order : Int := (Nat.toDigits 10 digits).length + exponent
  if digits = 0 || order < -400 then some (signed negative 0)
  else if 400 < order then none
  else
    let m := format.nearest (digits * tenTo exponent.toNat) (tenTo (-exponent).toNat)
    if m < format.infinity then some (signed negative m) else none

/-- The integer that the number is, if it is one. -/
def toInt? (x : Binary64) : Option Int :=
  if !x.isFinite then none
  else
    let divisor := twoTo (-x.exponent).toNat
    if x.significand % divisor == 0 then
      let n : Int := (x.significand * twoTo x.exponent.toNat / divisor : Nat)
      some (if x.isNegative then -n else n)
    else none

/-- Equality of numbers: zero has no sign, and what is no number equals nothing. -/
def same (x y : Binary64) : Bool :=
  let finite := x.magnitude ≤ format.infinity && y.magnitude ≤ format.infinity
  finite && (x.bits == y.bits || (x.magnitude == 0 && y.magnitude == 0))

/-- The nearest number of 32 bits. -/
def toBinary32 (x : Binary64) : Binary32 :=
  if x.isFinite then
    .ofQuotient x.isNegative (x.significand * twoTo x.exponent.toNat) (twoTo (-x.exponent).toNat)
  else
    let f := BinaryFormat.binary32
    let special := if x.isInfinite then f.infinity else f.infinity + twoTo (f.fractionBits - 1)
    ⟨(special + if x.isNegative then f.signBit else 0).toUInt32⟩

end Binary64

end ShaderGraph
