/-!
Exact arithmetic around binary64: the rational value of a double, the double nearest to a rational,
the correctly rounded length of a vector, and the order that tells every two doubles apart.
-/

namespace DensityClustering.Binary64

/-- Rounds `num / den` to the nearest natural number, a half going to the even neighbour. -/
def roundHalfEven (num den : Nat) : Nat :=
  let q := num / den
  let r := 2 * (num % den)
  if r < den then q else if den < r then q + 1 else q + q % 2

/-- Numerator and denominator of `(num / den) / 2 ^ e`. -/
def unscale (num den : Nat) (e : Int) : Nat × Nat :=
  if 0 ≤ e then (num, den <<< e.toNat) else (num <<< (-e).toNat, den)

/-- The exponent `e ≥ -1074` at which `num / den` has at most 53 digits before the binary point. -/
def exponentOf (num den : Nat) : Int :=
  let guess : Int := (num.log2 : Int) - (den.log2 : Int) - 52
  let (n, d) := unscale num den guess
  max (if n < d <<< 52 then guess - 1 else guess) (-1074)

/-- Bit pattern of the double nearest to the positive rational `num / den`. -/
def nearestBits (num den : Nat) : Nat :=
  let e := exponentOf num den
  let (n, d) := unscale num den e
  min (roundHalfEven n d + (e + 1074).toNat <<< 52) (0x7FF <<< 52)

def signBit : Nat := 1 <<< 63

/-- The double nearest to `q`, a tie going to the even significand. -/
def nearest (q : Rat) : Float :=
  if q.num = 0 then 0
  else
    let bits := nearestBits q.num.natAbs q.den
    Float.ofBits (UInt64.ofNat (if q.num < 0 then bits + signBit else bits))

def next (x : Float) : Float :=
  if x == 0 then Float.ofBits 1
  else if x < 0 then Float.ofBits (x.toBits - 1)
  else Float.ofBits (x.toBits + 1)

structure Parts where
  negative : Bool
  significand : Nat
  exponent : Int
  deriving DecidableEq, Repr

def parts (x : Float) : Parts :=
  let bits := x.toBits.toNat
  let biased := bits >>> 52 % 2048
  let fraction := bits % 1 <<< 52
  { negative := decide (signBit ≤ bits)
    significand := if biased = 0 then fraction else fraction + 1 <<< 52
    exponent := (if biased = 0 then 1 else biased) - 1075 }

namespace Parts

/-- The integer of a given size with the sign of the parts. -/
def signed (p : Parts) (m : Nat) : Int := if p.negative then -m else m

def toRat (p : Parts) : Rat :=
  if 0 ≤ p.exponent then (p.signed (p.significand <<< p.exponent.toNat) : Rat)
  else mkRat (p.signed p.significand) (1 <<< (-p.exponent).toNat)

def truncate (p : Parts) : Int :=
  p.signed (if 0 ≤ p.exponent then p.significand <<< p.exponent.toNat
    else p.significand >>> (-p.exponent).toNat)

end Parts

def value (x : Float) : Rat := (parts x).toRat

/-- Place of a double in the order of bit patterns: negative numbers first, `-0` just below `0`. -/
def rank (x : Float) : Int :=
  let bits := x.toBits.toNat
  if bits < signBit then bits else (signBit : Int) - 1 - bits

/-- The double nearest to the square root of a non-negative rational. -/
def nearestRoot (q : Rat) : Float :=
  let spread := 2 * ((120 + q.den.log2 - q.num.natAbs.log2) / 2)
  let scaled := q.num.natAbs <<< spread / q.den
  let root := scaled.sqrt
  let sticky := if root * root * q.den = q.num.natAbs <<< spread then 0 else 1
  nearest (mkRat (2 * root + sticky : Nat) (2 <<< (spread / 2)))

/-- Length of the vector `(x, y)`, correctly rounded; infinite as soon as one component is. -/
def hypot (x y : Float) : Float :=
  if x.isInf || y.isInf then 1 / 0
  else if x.isNaN || y.isNaN then 0 / 0
  else nearestRoot (value x * value x + value y * value y)

/-- The integer part of a double, kept inside the range of a signed 64-bit integer. -/
def truncate (x : Float) : Int :=
  if x.isNaN then 0
  else if x.isInf then (if x < 0 then -signBit else signBit - 1)
  else max (-signBit) (min (signBit - 1) (parts x).truncate)

end DensityClustering.Binary64
