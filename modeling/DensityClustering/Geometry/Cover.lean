import DensityClustering.Geometry.Segment

/-!
Whether a geometry covers a point, its boundary included. Segments and rings decide exactly; where
only vertices count, points within the tolerance are the same.
-/

namespace DensityClustering

variable {S : Type} [Scalar S]

inductive Position where
  | outside
  | onBoundary
  | inside
  deriving DecidableEq, Repr

namespace Ring

/-- What a ring's edge says about `c`: `none` when `c` lies on it, otherwise its share of the
winding number. An upward edge counts from its start up to its end, exclusively, a downward edge
from its start, exclusively, down to its end. -/
def windingOf (c : Coord S) (e : Segment S) : Option Int :=
  let t := turn e.start e.finish c
  let touches := t == .straight && isBetween c.x e.start.x e.finish.x
  if e.start.y ≤ c.y then
    if c.y ≤ e.finish.y then
      if t == .counterClockwise && !(e.finish.y == c.y) then some 1
      else if touches then none else some 0
    else some 0
  else if e.finish.y ≤ c.y then
    if t == .clockwise then some (-1) else if touches then none else some 0
  else some 0

/-- The sum of the edges' shares, `none` as soon as `c` lies on an edge. -/
def winding (c : Coord S) : List (Segment S) → Option Int
  | [] => some 0
  | e :: es => do
    let w ← windingOf c e
    let rest ← winding c es
    return w + rest

/-- The position of `c`: inside where the ring winds round it. -/
def position (r : Ring S) (c : Coord S) : Position :=
  match r.closed with
  | [] => .outside
  | [p] => if c.coincides p then .onBoundary else .outside
  | ps =>
    match winding c (Segment.chain ps) with
    | none => .onBoundary
    | some w => if w = 0 then .outside else .inside

end Ring

/-- `c` lies in the polygon or on its boundary: a point strictly inside a hole does not, unless an
earlier hole has it on its boundary. -/
def Polygon.covers (p : Polygon S) (c : Coord S) : Bool :=
  match p.exterior.position c with
  | .outside => false
  | .onBoundary => true
  | .inside => decide (((p.holes.map (·.position c)).find? (· ≠ .outside)) ≠ some .inside)

/-- `c` lies in the geometry or on its boundary. Of several line strings, and of a collection, only
the vertices count. -/
def Geometry.covers (g : Geometry S) (c : Coord S) : Bool :=
  match g with
  | .point p => p.near c
  | .multiPoint ps => ps.any (·.near c)
  | .line a b => Segment.contains ⟨a, b⟩ c
  | .lineString ps => (Segment.chain ps).any (·.contains c)
  | .polygon p => p.covers c
  | .multiPolygon ps => ps.any (·.covers c)
  | .box b => b.toPolygon.covers c
  | .triangle t => t.toPolygon.covers c
  | g => g.coords.any (·.near c)

end DensityClustering
