import DensityClustering.Geometry.Segment

/-!
Areas by the shoelace formula, each ring seen from its first vertex.
-/

namespace DensityClustering

variable {S : Type} [Scalar S]

/-- Twice the signed area of the triangle that the segment spans with the origin. -/
def Segment.determinant (s : Segment S) : S :=
  s.start.x * s.finish.y - s.start.y * s.finish.x

def Segment.seenFrom (c : Coord S) (s : Segment S) : Segment S := ⟨s.start - c, s.finish - c⟩

def Ring.shiftedEdges (r : Ring S) : List (Segment S) :=
  match r.closed with
  | [] => []
  | first :: rest => (Segment.chain (first :: rest)).map (Segment.seenFrom first)

/-- The signed area, positive counter-clockwise. A ring that does not close has none. -/
def Ring.signedArea (r : Ring S) : S :=
  match r.closed.head?, r.closed.getLast? with
  | some first, some last =>
    if 3 ≤ r.closed.length && first.coincides last then
      (r.shiftedEdges.foldl (fun sum e => sum + e.determinant) 0) / Scalar.ofInt 2
    else 0
  | _, _ => 0

/-- The outer area less the areas of the holes, in absolute value. -/
def Polygon.area (p : Polygon S) : S :=
  Scalar.abs (p.holes.foldl (fun rest h => rest - Scalar.abs h.signedArea)
    (Scalar.abs p.exterior.signedArea))

def Box.area (b : Box S) : S := (b.upper.x - b.lower.x) * (b.upper.y - b.lower.y)

def Triangle.sides (t : Triangle S) : List (Segment S) :=
  Segment.chain (t.corners ++ t.corners.take 1)

def Triangle.area (t : Triangle S) : S :=
  Scalar.abs ((t.sides.foldl (fun sum e => sum + e.determinant) 0) / Scalar.ofInt 2)

/-- The area of several polygons, overlaps counted repeatedly. -/
def Polygon.totalArea (ps : List (Polygon S)) : S :=
  ps.foldl (fun sum p => sum + p.area) 0

namespace Geometry

mutual

/-- The area of a geometry; zero unless it has a part of dimension two. -/
def area : Geometry S → S
  | .polygon p => p.area
  | .multiPolygon ps => Polygon.totalArea ps
  | .box b => b.area
  | .triangle t => t.area
  | .collection gs => areaOfAll 0 gs
  | _ => 0

/-- The areas of several geometries, added to `sum` one after the other. -/
def areaOfAll (sum : S) : List (Geometry S) → S
  | [] => sum
  | g :: gs => areaOfAll (sum + area g) gs

end

end Geometry

end DensityClustering
