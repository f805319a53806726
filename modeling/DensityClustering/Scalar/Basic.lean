/-!
The numbers coordinates are made of. Every geometric rule of the library is stated once over
`Scalar`; it runs on doubles, and on rationals it is the same rule in exact arithmetic.
-/

namespace DensityClustering

/-- Numbers with the arithmetic of a field, which may round, and may hold values that are no
number: `<`, `≤` and `==` are the numeric comparisons, `order` tells every two values apart. -/
class Scalar (S : Type) extends Zero S, One S, Add S, Sub S, Mul S, Div S, LT S, LE S, BEq S where
  decLt : DecidableLT S
  decLe : DecidableLE S
  order : S → S → Ordering
  transOrder : Std.TransCmp order
  lawfulOrder : Std.LawfulEqCmp order
  isFinite : S → Bool
  /-- The rational that a finite value stands for. -/
  value : S → Rat
  nearest : Rat → S
  /-- The next larger value; the value itself where the numbers are dense. -/
  next : S → S
  ofInt : Int → S
  toDouble : S → Float
  abs : S → S
  hypot : S → S → S
  /-- Two points whose coordinates differ by at most this much count as one. -/
  tolerance : S
  /-- The vector with these components is shorter than the tolerance for equal points. -/
  negligible : S → S → Bool
  /-- The integer part, kept inside the signed 64-bit range where the numbers have one. -/
  truncate : S → Int

namespace Scalar

variable {S : Type} [Scalar S]

instance : DecidableLT S := decLt
instance : DecidableLE S := decLe
instance : Std.TransCmp (order : S → S → Ordering) := transOrder
instance : Std.LawfulEqCmp (order : S → S → Ordering) := lawfulOrder

end Scalar

end DensityClustering
