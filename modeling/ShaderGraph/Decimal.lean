import ShaderGraph.Binary

/-! Decimals for binary numbers: the fewest digits that read back as the same
number and, among those, the ones nearest to it. -/
namespace ShaderGraph

/-- The number `digits * 10 ^ exponent`. -/
structure Decimal where
  digits : Nat
  exponent : Int
deriving DecidableEq

namespace Decimal

/-- Which of two equally near decimals is taken. -/
inductive Tie where
  | toEven
  | away

/-- A range of reals around `value`, all in units of a power of two. -/
structure Interval where
  low : Nat
  value : Nat
  high : Nat
  closed : Bool
  unit : Int

/-- The reals that read back as `x`. They reach halfway to the next number on
either side, which below a power of two is half as far; the ends belong to an
even significand. -/
def interval (x : Binary64) : Interval :=
  let m := x.significand
  let narrow := m == twoTo 52 && twoTo 53 ≤ x.magnitude
  { low := if narrow then 4 * m - 1 else 4 * m - 2
    value := 4 * m
    high := 4 * m + 2
    closed := m % 2 == 0
    unit := x.exponent - 2 }

/-- The quotient of `n` units by `10 ^ g` is `scaled n g / grid g`. -/
def Interval.scaled (i : Interval) (n : Nat) (g : Int) : Nat :=
  n * twoTo i.unit.toNat * tenTo (-g).toNat

def Interval.grid (i : Interval) (g : Int) : Nat := tenTo g.toNat * twoTo (-i.unit).toNat

def Interval.contains (i : Interval) (d : Nat) (g : Int) : Bool :=
  let point := d * i.grid g
  let low := i.scaled i.low g
  let high := i.scaled i.high g
  if i.closed then low ≤ point && point ≤ high else low < point && point < high

/-- The largest `k` with `10 ^ k` at most the value. -/
def Interval.order (i : Interval) : Int :=
  let k := ((i.value.log2 + i.unit) * 30103) / 100000
  let reaches (k : Int) : Bool := i.grid k ≤ i.scaled i.value k
  if reaches (k + 1) then k + 1 else if reaches k then k else k - 1

/-- The multiple of `10 ^ g` nearest to the value, if one is in the range. -/
def Interval.onGrid? (i : Interval) (tie : Tie) (g : Int) : Option Decimal :=
  let unit := i.grid g
  let value := i.scaled i.value g
  let d := value / unit
  let below := value % unit
  let upFirst := unit < 2 * below ||
    (2 * below == unit && match tie with | .toEven => d % 2 == 1 | .away => true)
  match i.contains d g, i.contains (d + 1) g with
  | true, true => some ⟨if upFirst then d + 1 else d, g⟩
  | true, false => some ⟨d, g⟩
  | false, true => some ⟨d + 1, g⟩
  | false, false => none

/-- Moves at most `n` zeros from the digits to the exponent. -/
def stripZeros : Nat → Decimal → Decimal
  | 0, d => d
  | n + 1, d =>
    if d.digits % 10 == 0 && d.digits != 0 then stripZeros n ⟨d.digits / 10, d.exponent + 1⟩ else d

/-- The shortest decimal for a finite number other than zero, sign aside. Grids
are tried from the leading digit down; seventeen digits tell all numbers apart. -/
def shortest (tie : Tie) (x : Binary64) : Decimal :=
  let i := interval x
  let k := i.order
  let found := (List.range 17).findSome? fun (n : Nat) => i.onGrid? tie (k - n)
  stripZeros 17 (found.getD ⟨i.scaled i.value (k - 16) / i.grid (k - 16), k - 16⟩)

/-- The digits before and after the point. -/
def positional (d : Decimal) : String × String :=
  let digits := Nat.toDigits 10 d.digits
  let point : Int := digits.length + d.exponent
  if point ≤ 0 then ("0", String.ofList (List.replicate (-point).toNat '0' ++ digits))
  else
    let padded := digits ++ List.replicate d.exponent.toNat '0'
    (String.ofList (padded.take point.toNat), String.ofList (padded.drop point.toNat))

/-- The exponent of the leading digit. -/
def leadingExponent (d : Decimal) : Int := (Nat.toDigits 10 d.digits).length - 1 + d.exponent

/-- The leading digit, and the digits after it. -/
def scientific (d : Decimal) : String × String :=
  let digits := Nat.toDigits 10 d.digits
  (String.ofList (digits.take 1), String.ofList (digits.drop 1))

end Decimal

end ShaderGraph
