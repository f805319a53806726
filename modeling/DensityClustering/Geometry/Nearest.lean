import DensityClustering.Geometry.Hull

/-!
The closest pair of points of two geometries: a shared point where a vertex of one is covered by the
other or two segments cross, otherwise the best of all pairs of a vertex and a segment.
-/

namespace DensityClustering

variable {S : Type} [Scalar S]

namespace Segment

/-- The point of the segment closest to `p`: the projection, clamped to the ends. -/
def closestTo (s : Segment S) (p : Coord S) : Coord S :=
  let ab := s.finish - s.start
  let len := ab.x * ab.x + ab.y * ab.y
  if len ≤ 0 then s.start
  else
    let ap := p - s.start
    let t := (ap.x * ab.x + ap.y * ab.y) / len
    let t := if t < 0 then 0 else if 1 < t then 1 else t
    s.start + ab.scale t

/-- The point where two segments cross or touch, unless they are nearly parallel. -/
def crossing (p q : Segment S) : Option (Coord S) :=
  let r := p.finish - p.start
  let s := q.finish - q.start
  let det := r.x * s.y - r.y * s.x
  if Scalar.abs det < Scalar.tolerance then none
  else
    let t := cross p.start q.start (q.start + s) / det
    let u := cross p.start q.start (q.start + r) / det
    if 0 ≤ t && t ≤ 1 && 0 ≤ u && u ≤ 1 then some (p.start + r.scale t) else none

end Segment

structure Pair (S : Type) where
  first : Coord S
  second : Coord S
  deriving DecidableEq, Repr

namespace Pair

def squaredDistance (p : Pair S) : S :=
  let d := p.first - p.second
  d.x * d.x + d.y * d.y

def closer (best : Option (Pair S)) (p : Pair S) : Option (Pair S) :=
  match best with
  | none => some p
  | some b => if p.squaredDistance < b.squaredDistance then some p else some b

end Pair

namespace Geometry

def coveredVertex (a b : Geometry S) : Option (Coord S) := a.coords.find? b.covers

def firstCrossing (a b : Geometry S) : Option (Coord S) :=
  a.segments.findSome? fun p => b.segments.findSome? p.crossing

/-- Every vertex of one geometry with its closest point on every segment of the other. -/
def vertexPairs (a b : Geometry S) : List (Pair S) :=
  (a.coords.flatMap fun p => b.segments.map fun s => ⟨p, s.closestTo p⟩) ++
    b.coords.flatMap fun q => a.segments.map fun s => ⟨s.closestTo q, q⟩

/-- The closest points of two geometries; none where one of them has no vertex. -/
def nearestPair (a b : Geometry S) : Option (Pair S) :=
  if a.isEmpty || b.isEmpty then none
  else
    match a.coveredVertex b <|> b.coveredVertex a <|> a.firstCrossing b with
    | some c => some ⟨c, c⟩
    | none => (a.vertexPairs b).foldl Pair.closer none

end Geometry

end DensityClustering
