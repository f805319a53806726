import DensityClustering.Geometry.Area
import DensityClustering.Geometry.Cover
import DensityClustering.Geometry.Overlay.Rings

/-!
Union and intersection of geometries. Geometries with an area are overlaid exactly; an intersection
in which one side has none keeps the vertices of that side which the other one covers.
-/

namespace DensityClustering

inductive CombineError where
  | nonFinite
  | noPolygons
  | notAreal
  deriving DecidableEq, Repr

def CombineError.message : CombineError → String
  | nonFinite => "topology error: non-finite coordinate"
  | noPolygons => "topology error: union produced no polygons"
  | notAreal => "operand is not polygonal"

namespace Geometry

variable {S : Type} [Scalar S]

/-- The polygons of a geometry that consists of polygons and has a positive area. -/
def areal (g : Geometry S) : Option (List (Polygon S)) :=
  let polygons := match g with
    | polygon p => some [p]
    | multiPolygon ps => some ps
    | box b => some [b.toPolygon]
    | triangle t => some [t.toPolygon]
    | _ => none
  polygons.filter fun ps => decide (0 < Polygon.totalArea ps)

def ofPolygons : List (Polygon S) → Geometry S
  | [p] => polygon p
  | ps => multiPolygon ps

/-- The points that `keep` selects by membership in two sets of polygons. -/
def overlay (keep : Bool → Bool → Bool) (a b : List (Polygon S)) : List (Polygon S) :=
  let es := Overlay.edges a
  let fs := Overlay.edges b
  Overlay.polygons (Overlay.places (es ++ fs))
    (Overlay.boundary keep (es.map Overlay.exact) (fs.map Overlay.exact))

/-- The points that are not close to an earlier one. -/
def distinctPoints (points : List (Coord S)) : List (Coord S) :=
  points.foldl (fun kept c => if kept.any (·.near c) then kept else kept ++ [c]) []

def coveredPoints (low other : Geometry S) : Geometry S :=
  match distinctPoints (low.coords.filter other.covers) with
  | [] => empty
  | [p] => point p
  | ps => multiPoint ps

def union (a b : Geometry S) : Except CombineError (Geometry S) :=
  if !(a.isFinite && b.isFinite) then .error .nonFinite
  else
    match a.areal, b.areal with
    | some ps, some qs =>
      match overlay (· || ·) ps qs with
      | [] => .error .noPolygons
      | result => .ok (ofPolygons result)
    | _, _ => .error .notAreal

def intersection (a b : Geometry S) : Except CombineError (Geometry S) :=
  if !(a.isFinite && b.isFinite) then .error .nonFinite
  else
    match a.areal, b.areal with
    | some ps, some qs => .ok (ofPolygons (overlay (· && ·) ps qs))
    | none, _ => .ok (coveredPoints a b)
    | some _, none => .ok (coveredPoints b a)

end Geometry

end DensityClustering
