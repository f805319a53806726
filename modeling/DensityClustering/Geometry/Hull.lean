import DensityClustering.Geometry.Cover

/-!
Convex hulls. The vertices come from the two monotone chains over the points in lexicographic order;
`hull` turns them into a geometry and can keep a geometry that covers the new points already.
-/

namespace DensityClustering

variable {S : Type} [Scalar S]

/-- The cross product of `b - a` and `c - a`, rounded as the coordinates are: positive where the
points turn left. -/
def cross (a b c : Coord S) : S :=
  let ab := b - a
  let ac := c - a
  ab.x * ac.y - ab.y * ac.x

namespace Hull

def isClose (a b : Coord S) : Bool := Scalar.negligible (a.x - b.x) (a.y - b.y)

/-- Drops the points that are close to the last one kept, `last`. -/
def thin (last : Coord S) : List (Coord S) → List (Coord S)
  | [] => []
  | p :: ps => if isClose p last then thin last ps else p :: thin p ps

/-- The finite points in lexicographic order, one of each group of close neighbours. -/
def sites (points : List (Coord S)) : List (Coord S) :=
  match (points.filter Coord.isFinite).mergeSort (fun a b => (Coord.order a b).isLE) with
  | [] => []
  | p :: ps => p :: thin p ps

/-- Drops from the top of the chain the points at which going on to `p` would not turn left. -/
def retreat (p : Coord S) : List (Coord S) → List (Coord S)
  | b :: a :: rest => if cross a b p ≤ 0 then retreat p (a :: rest) else b :: a :: rest
  | chain => chain

/-- The chain round the right-hand side of the points as they come, last point first. -/
def chain (points : List (Coord S)) : List (Coord S) :=
  points.foldl (fun chain p => p :: retreat p chain) []

/-- The vertices of the convex hull, counter-clockwise from the lexicographically smallest. Fewer
than three sites are all vertices. -/
def vertices (points : List (Coord S)) : List (Coord S) :=
  let sites := sites points
  if sites.length < 3 then sites
  else (chain sites).tail.reverse ++ (chain sites.reverse).tail.reverse

end Hull

/-- The geometry with the given hull vertices: a point, a line string or a polygon. -/
def Geometry.ofHull : List (Coord S) → Option (Geometry S)
  | [] => none
  | [p] => some (.point p)
  | [p, q] => some (.lineString [p, q])
  | ring => some (.polygon ⟨⟨ring⟩, []⟩)

/-- The hull of a geometry's vertices and further points; the geometry itself where there is no
finite point, and, unless a rebuild is asked for, where it covers all the points. -/
def hull (existing : Option (Geometry S)) (points : List (Coord S)) (rebuild : Bool) :
    Option (Geometry S) :=
  let vertices := match existing with
    | some g => g.coords
    | none => []
  let kept := match existing with
    | some g => if !rebuild && points.all g.covers then some g else none
    | none => none
  match kept with
  | some g => some g
  | none => (Geometry.ofHull (Hull.vertices (vertices ++ points))).or existing

end DensityClustering
