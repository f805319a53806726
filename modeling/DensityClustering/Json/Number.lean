import DensityClustering.Decimal.Shortest
import DensityClustering.Json.Value

/-!
What the digits of a number mean. Integers are exact. A double is read from the leading digits that
fit into 64 bits, scaled by one power of ten, so that a long number may come out one place off; it
is written with the fewest digits that tell it from its neighbours.
-/

namespace DensityClustering.JsonNumber

def largestWord : Nat := 18446744073709551615

/-- The integer that the digits spell after `start`. -/
def spell (start : Nat) (digits : List Digit) : Nat :=
  digits.foldl (fun n d => 10 * n + d.val) start

/-- The number of leading digits that can follow `start` within 64 bits. -/
def fitting (start : Nat) : List Digit → Nat
  | [] => 0
  | d :: ds => if 10 * start + d.val ≤ largestWord then fitting (10 * start + d.val) ds + 1 else 0

/-- The significand within 64 bits, and the exponent that goes with it. -/
def significand (n : JsonNumber) : Nat × Int :=
  let whole := fitting 0 n.whole
  let start := spell 0 (n.whole.take whole)
  let fraction := n.fraction.getD []
  let more := fitting start fraction
  (spell start (fraction.take more), (n.whole.length - whole : Int) - more)

def writtenExponent (n : JsonNumber) : Int :=
  match n.exponent with
  | none => 0
  | some e => if e.negative then -(spell 0 e.digits : Int) else spell 0 e.digits

/-- A power of ten from `10 ^ 0` to `10 ^ 308`. -/
def powerOfTen (k : Nat) : Float := Float.ofScientific 1 false k

/-- `x * 10 ^ e`, none when it is too large. -/
def scale (x : Float) (e : Int) : Option Float :=
  if 308 < e then if x == 0 then some x else none
  else if 0 ≤ e then
    let scaled := x * powerOfTen e.toNat
    if scaled.isInf then none else some scaled
  else if -308 ≤ e then some (x / powerOfTen (-e).toNat)
  else if x == 0 then some x
  else scale (x / powerOfTen 308) (e + 308)
termination_by (-e).toNat

/-- The double that a number is read as, none when it is too large. -/
def toDouble? (n : JsonNumber) : Option Float :=
  let (digits, e) := n.significand
  (scale (Float.ofNat digits) (e + n.writtenExponent)).map fun x => if n.negative then -x else x

/-- The unsigned 64-bit integer that is written without sign, fraction and exponent. -/
def toWord? (n : JsonNumber) : Option Nat :=
  if n.negative || n.fraction.isSome || n.exponent.isSome then none
  else if spell 0 n.whole ≤ largestWord then some (spell 0 n.whole)
  else none

def digitsOf (n : Nat) : List Digit :=
  (Nat.toDigits 10 n).map fun c => Digit.ofNat (c.toNat - '0'.toNat)

def ofNat (n : Nat) : JsonNumber := ⟨false, digitsOf n, none, none⟩

/-- A positive decimal number. Up to sixteen digits before the point and four zeros behind it are
written out; beyond that the number has one digit before the point and an exponent. -/
def ofDecimal (negative : Bool) (n : Decimal.Number) : JsonNumber :=
  let digits := digitsOf n.digits
  let point : Int := digits.length + n.exponent
  let zeros := fun k : Int => List.replicate k.toNat (Digit.ofNat 0)
  if 0 ≤ n.exponent && point ≤ 16 then ⟨negative, digits ++ zeros n.exponent, some (zeros 1), none⟩
  else if 0 < point && point ≤ 16 then
    ⟨negative, digits.take point.toNat, some (digits.drop point.toNat), none⟩
  else if -5 < point && point ≤ 0 then ⟨negative, zeros 1, some (zeros (-point) ++ digits), none⟩
  else
    let exponent := point - 1
    { negative := negative
      whole := digits.take 1
      fraction := if digits.length = 1 then none else some (digits.drop 1)
      exponent := some ⟨decide (exponent < 0), digitsOf exponent.natAbs⟩ }

def ofDouble (x : Float) : JsonNumber :=
  let p := Binary64.parts x
  if p.significand = 0 then ⟨p.negative, digitsOf 0, some (digitsOf 0), none⟩
  else ofDecimal p.negative (Decimal.shortest p)

end DensityClustering.JsonNumber
