import DensityClustering.Geometry.Basic

/-!
Directed segments, the segments that bound a geometry, and the side of a segment on which a point
lies. Sides of finite points are exact, whatever the coordinates round to.
-/

namespace DensityClustering

/-- A directed segment; both ends may be the same point. -/
structure Segment (S : Type) where
  start : Coord S
  finish : Coord S
  deriving DecidableEq, Repr

namespace Segment

def chain {S : Type} : List (Coord S) → List (Segment S)
  | a :: b :: rest => ⟨a, b⟩ :: chain (b :: rest)
  | _ => []

/-- The segments of a path; a path of one point is a segment of length zero. -/
def path {S : Type} : List (Coord S) → List (Segment S)
  | [p] => [⟨p, p⟩]
  | ps => chain ps

end Segment

inductive Turn where
  | clockwise
  | straight
  | counterClockwise
  deriving DecidableEq, Repr

/-- The turn whose determinant is `left - right`. -/
def Turn.ofProducts {T : Type} [LT T] [DecidableLT T] (left right : T) : Turn :=
  if right < left then .counterClockwise else if left < right then .clockwise else .straight

section

variable {S : Type} [Scalar S]

/-- The turn from `a` by `b` to `c`, exact for finite points. -/
def turn (a b c : Coord S) : Turn :=
  if a.isFinite && b.isFinite && c.isFinite then
    let (cx, cy) := (Scalar.value c.x, Scalar.value c.y)
    let left := (Scalar.value a.x - cx) * (Scalar.value b.y - cy)
    let right := (Scalar.value a.y - cy) * (Scalar.value b.x - cx)
    Turn.ofProducts left right
  else
    Turn.ofProducts ((a.x - c.x) * (b.y - c.y)) ((a.y - c.y) * (b.x - c.x))

/-- `v` lies between the bounds, which come in either order. -/
def isBetween (v bound other : S) : Bool :=
  if bound < other then bound ≤ v && v ≤ other else other ≤ v && v ≤ bound

def Segment.contains (s : Segment S) (c : Coord S) : Bool :=
  isBetween c.x s.start.x s.finish.x && isBetween c.y s.start.y s.finish.y &&
    turn s.start s.finish c == .straight

namespace Geometry

def ringSegments (p : Polygon S) : List (Segment S) :=
  p.rings.flatMap fun r => Segment.path r.closed

mutual

/-- The segments that a geometry consists of or is bounded by; an isolated point is a segment of
length zero. -/
def segments : Geometry S → List (Segment S)
  | point p => Segment.path [p]
  | multiPoint ps => ps.flatMap fun p => Segment.path [p]
  | line a b => Segment.path [a, b]
  | lineString ps => Segment.path ps
  | multiLineString ls => ls.flatMap Segment.path
  | polygon p => ringSegments p
  | multiPolygon ps => ps.flatMap ringSegments
  | box b => ringSegments b.toPolygon
  | triangle t => ringSegments t.toPolygon
  | collection gs => segmentsOfAll gs

def segmentsOfAll : List (Geometry S) → List (Segment S)
  | [] => []
  | g :: gs => segments g ++ segmentsOfAll gs

end

end Geometry

end

end DensityClustering
