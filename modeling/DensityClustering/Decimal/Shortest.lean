import DensityClustering.Scalar.Binary64

/-!
Decimal digits of doubles: a rational rounded to a number of significant digits, and the fewest
digits that read back as a given double.
-/

namespace DensityClustering.Decimal

def digitCount (n : Nat) : Nat := (Nat.toDigits 10 n).length

/-- The rational `num / den` times `10 ^ e`, as a numerator and a denominator. -/
def shift (num den : Nat) (e : Int) : Nat × Nat :=
  if 0 ≤ e then (num * Nat.pow 10 e.toNat, den) else (num, den * Nat.pow 10 (-e).toNat)

/-- The `k` with `10 ^ (k - 1) ≤ num / den < 10 ^ k`, for a positive rational. -/
def magnitude (num den : Nat) : Int :=
  if den ≤ num then digitCount (num / den)
  else
    let k : Int := 1 - (digitCount (den / num) : Int)
    let (n, d) := shift num den (1 - k)
    if n < d then k - 1 else k

/-- A positive decimal number `digits * 10 ^ exponent`. -/
structure Number where
  digits : Nat
  exponent : Int
  deriving DecidableEq, Repr

/-- The positive rational `num / den` rounded to `places` significant digits, ties to even. -/
def round (num den places : Nat) : Number :=
  let e := magnitude num den - places
  let (n, d) := shift num den (-e)
  let digits := Binary64.roundHalfEven n d
  if digits = Nat.pow 10 places then ⟨digits / 10, e + 1⟩ else ⟨digits, e⟩

/-- The rationals that are closest to a double, between two bounds in quarters of its last binary
place. The bounds belong to it when the significand is even. -/
structure Interval where
  low : Nat
  high : Nat
  closed : Bool

/-- The interval of a positive double. Below a power of two the places are half as wide. -/
def Interval.around (p : Binary64.Parts) : Interval :=
  let atBoundary := p.significand = 1 <<< 52 ∧ -1074 < p.exponent
  { low := 4 * p.significand - (if atBoundary then 1 else 2)
    high := 4 * p.significand + 2
    closed := p.significand % 2 = 0 }

/-- The decimal number lies in the interval of a double with the given binary exponent. -/
def Interval.holds (i : Interval) (exponent : Int) (n : Number) : Bool :=
  let (num, den) := shift n.digits 1 n.exponent
  let (num, den) := Binary64.unscale num den (exponent - 2)
  if i.closed then decide (i.low * den ≤ num ∧ num ≤ i.high * den)
  else decide (i.low * den < num ∧ num < i.high * den)

def Number.trim (n : Number) : Number :=
  if _h : n.digits % 10 = 0 ∧ n.digits ≠ 0 then Number.trim ⟨n.digits / 10, n.exponent + 1⟩ else n
termination_by n.digits
decreasing_by omega

/-- The neighbours of a positive rational on the grid with `places` significant digits that lie in
the interval, the closer one first. -/
def neighbours (i : Interval) (exponent : Int) (num den places : Nat) : List Number :=
  let e := magnitude num den - places
  let (n, d) := shift num den (-e)
  let below : Number := ⟨n / d, e⟩
  let above : Number := ⟨n / d + 1, e⟩
  let inOrder := if Binary64.roundHalfEven n d = n / d then [below, above] else [above, below]
  inOrder.filter fun c => decide (c.digits ≠ 0) && i.holds exponent c

/-- The shortest decimal number that reads as a positive double; of several the closest. -/
def shortest (p : Binary64.Parts) : Number :=
  let (num, den) := Binary64.unscale p.significand 1 (-p.exponent)
  let candidates := (List.range 17).flatMap fun k =>
    neighbours (Interval.around p) p.exponent num den (k + 1)
  match candidates with
  | best :: _ => best.trim
  | [] => round num den 17

end DensityClustering.Decimal
