import DensityClustering.Geometry.Area
import DensityClustering.Geometry.Nearest

/-!
The point where two crossing segments meet. It is computed relative to the middle of the box that
both segments run through, which keeps the leading digits out of the products.
-/

namespace DensityClustering

variable {S : Type} [Scalar S]

namespace Segment

def box (s : Segment S) : Box S := ⟨s.start, s.finish⟩

/-- The middle between the larger of two lower bounds and the smaller of two upper bounds. -/
def middleOf (low₁ low₂ high₁ high₂ : S) : S :=
  ((if low₁ < low₂ then low₂ else low₁) + (if high₁ < high₂ then high₁ else high₂)) /
    Scalar.ofInt 2

/-- The middle of what the boxes of two segments have in common. -/
def commonMiddle (p q : Segment S) : Coord S :=
  ⟨middleOf p.box.lower.x q.box.lower.x p.box.upper.x q.box.upper.x,
    middleOf p.box.lower.y q.box.lower.y p.box.upper.y q.box.upper.y⟩

/-- The point that lies on the lines through both segments, which are not parallel. -/
def commonPoint (p q : Segment S) : Coord S :=
  let u := p.start - p.finish
  let v := q.start - q.finish
  let d := u.x * v.y - v.x * u.y
  ⟨(v.x * p.determinant - u.x * q.determinant) / d, (v.y * p.determinant - u.y * q.determinant) / d⟩

/-- The end of one of the segments that is closest to the other one. -/
def closestEnd (p q : Segment S) : Coord S :=
  let pairs := [(p.start, q), (p.finish, q), (q.start, p), (q.finish, p)].map
    fun (c, s) => (⟨c, s.closestTo c⟩ : Pair S)
  match pairs.foldl Pair.closer none with
  | some pair => pair.first
  | none => p.start

/-- The point where two crossing segments meet; an end where rounding would leave their boxes. -/
def meeting (p q : Segment S) : Coord S :=
  let m := commonMiddle p q
  let c := commonPoint (p.seenFrom m) (q.seenFrom m) + m
  let isIn := fun s : Segment S =>
    isBetween c.x s.start.x s.finish.x && isBetween c.y s.start.y s.finish.y
  if c.isFinite && isIn p && isIn q then c else closestEnd p q

end Segment

end DensityClustering
