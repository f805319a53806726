import DensityClustering.Geometry.Area

/-!
Centroids: the weighted mean over the parts of the highest dimension that occurs. Points weigh one,
segments their length, rings their area.
-/

namespace DensityClustering

variable {S : Type} [Scalar S]

/-- A sum of weighted points that stand for parts of one dimension. -/
structure WeightedSum (S : Type) where
  dimension : Nat
  sum : Coord S
  weight : S

namespace WeightedSum

def part (dimension : Nat) (centroid : Coord S) (weight : S) : WeightedSum S :=
  ⟨dimension, centroid.scale weight, weight⟩

/-- Joins parts; those of the lower dimension are dropped. -/
def join (a b : WeightedSum S) : WeightedSum S :=
  if a.dimension < b.dimension then b
  else if b.dimension < a.dimension then a
  else { a with sum := a.sum + b.sum, weight := a.weight + b.weight }

/-- Takes `b` away from `a`; of different dimensions the higher one stays. -/
def remove (a b : WeightedSum S) : WeightedSum S :=
  if a.dimension < b.dimension then b
  else if b.dimension < a.dimension then a
  else { a with sum := a.sum - b.sum, weight := a.weight - b.weight }

def mean (a : WeightedSum S) : Coord S := ⟨a.sum.x / a.weight, a.sum.y / a.weight⟩

def add (acc : Option (WeightedSum S)) (b : WeightedSum S) : Option (WeightedSum S) :=
  match acc with
  | none => some b
  | some a => some (a.join b)

def total (parts : List (WeightedSum S)) : Option (WeightedSum S) := parts.foldl add none

end WeightedSum

def Segment.midpoint (s : Segment S) : Coord S :=
  ⟨(s.start.x + s.finish.x) / Scalar.ofInt 2, (s.start.y + s.finish.y) / Scalar.ofInt 2⟩

def Segment.length (s : Segment S) : S :=
  Scalar.hypot (s.finish.x - s.start.x) (s.finish.y - s.start.y)

def Coord.weighted (c : Coord S) : WeightedSum S := .part 0 c 1

/-- A segment as a part; one of length zero is a point. -/
def Segment.weighted (s : Segment S) : WeightedSum S :=
  if s.start.coincides s.finish then s.start.weighted else .part 1 s.midpoint s.length

def Segment.pathParts : List (Coord S) → List (WeightedSum S)
  | [p] => [p.weighted]
  | ps => (Segment.chain ps).map Segment.weighted

/-- The centroid of a ring whose signed area is `area`. -/
def Ring.centroid (r : Ring S) (shift : Coord S) (area : S) : Coord S :=
  let sum := r.shiftedEdges.foldl
    (fun sum e => sum + (e.finish + e.start).scale e.determinant) ⟨0, 0⟩
  let six := Scalar.ofInt 6 * area
  ⟨sum.x / six + shift.x, sum.y / six + shift.y⟩

/-- The parts of a ring. A ring without area is a path, or a point when its vertices coincide. -/
def Ring.parts (r : Ring S) : List (WeightedSum S) :=
  match r.closed with
  | [] => []
  | first :: rest =>
    if r.signedArea == 0 then
      if rest.any fun c => !first.coincides c then Segment.pathParts (first :: rest)
      else if first.coincides first then [first.weighted]
      else Segment.pathParts (first :: rest)
    else [.part 2 (r.centroid first r.signedArea) (Scalar.abs r.signedArea)]

/-- The parts of a polygon: the outer ring less the holes. Holes that leave no weight leave the
outer path. -/
def Polygon.parts (p : Polygon S) : List (WeightedSum S) :=
  match WeightedSum.total p.exterior.parts, WeightedSum.total (p.holes.flatMap Ring.parts) with
  | none, _ => []
  | some outer, none => [outer]
  | some outer, some inner =>
    let rest := outer.remove inner
    if rest.weight == 0 then Segment.pathParts p.exterior.closed else [rest]

def Box.center (b : Box S) : Coord S :=
  ⟨(b.upper.x + b.lower.x) / Scalar.ofInt 2, (b.upper.y + b.lower.y) / Scalar.ofInt 2⟩

/-- The parts of a box; a flat one is its diagonal, there and back. -/
def Box.parts (b : Box S) : List (WeightedSum S) :=
  if b.lower.coincides b.upper then [b.lower.weighted]
  else if b.lower.x == b.upper.x || b.lower.y == b.upper.y then
    [Segment.weighted ⟨b.lower, b.lower⟩, Segment.weighted ⟨b.lower, b.upper⟩,
      Segment.weighted ⟨b.upper, b.upper⟩, Segment.weighted ⟨b.upper, b.lower⟩]
  else [.part 2 b.center b.area]

/-- The parts of a triangle; a flat one is its three sides. -/
def Triangle.parts (t : Triangle S) : List (WeightedSum S) :=
  match t.corners with
  | [a, b, c] =>
    if turn a b c == .straight then
      if a.coincides b && b.coincides c then [a.weighted] else t.sides.map Segment.weighted
    else
      let sum := a + b + c
      [.part 2 ⟨sum.x / Scalar.ofInt 3, sum.y / Scalar.ofInt 3⟩ t.area]
  | _ => []

namespace Geometry

mutual

def parts : Geometry S → List (WeightedSum S)
  | .point p => [p.weighted]
  | .multiPoint ps => ps.map Coord.weighted
  | .line a b => [Segment.weighted ⟨a, b⟩]
  | .lineString ps => Segment.pathParts ps
  | .multiLineString ls => ls.flatMap Segment.pathParts
  | .polygon p => p.parts
  | .multiPolygon ps => ps.flatMap Polygon.parts
  | .box b => b.parts
  | .triangle t => t.parts
  | .collection gs => partsOfAll gs

def partsOfAll : List (Geometry S) → List (WeightedSum S)
  | [] => []
  | g :: gs => parts g ++ partsOfAll gs

end

/-- The centroid; none where there is no part. A point, a segment and a box have their middle. -/
def centroid (g : Geometry S) : Option (Coord S) :=
  match g with
  | .point p => some p
  | .line a b => some (Segment.midpoint ⟨a, b⟩)
  | .box b => some b.center
  | g => (WeightedSum.total g.parts).map WeightedSum.mean

end Geometry

end DensityClustering
