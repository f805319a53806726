import DensityClustering.Scalar.Instances
import DensityClustering.Geometry.Nearest
import DensityClustering.Neighbor.List

/-!
The items that are clustered and their distance: that of the closest points of their geometries, in
the plane or on a sphere.
-/

namespace DensityClustering

/-- How the distance of two points is measured. -/
inductive CoordDistance where
  /-- In the plane, in units of the coordinates. -/
  | euclidean
  /-- Along great circles of a sphere, for longitudes and latitudes in degrees. -/
  | haversine (radius : Float)
  deriving DecidableEq, Repr

def toRadians (degrees : Float) : Float := degrees * (3.141592653589793 / 180.0)

/-- The smaller of a number and one; one for what is no number. -/
def atMostOne (x : Float) : Float := if x < 1 then x else 1

namespace CoordDistance

variable {S : Type} [Scalar S]

def measure (d : CoordDistance) (a b : Coord S) : Float :=
  match d with
  | euclidean => Scalar.toDouble (Scalar.hypot (a.x - b.x) (a.y - b.y))
  | haversine radius =>
    let lat₁ := toRadians (Scalar.toDouble a.y)
    let lat₂ := toRadians (Scalar.toDouble b.y)
    let sinLat := Float.sin ((lat₂ - lat₁) / 2.0)
    let sinLon := Float.sin (toRadians (Scalar.toDouble (b.x - a.x)) / 2.0)
    let h := sinLat * sinLat + Float.cos lat₁ * Float.cos lat₂ * (sinLon * sinLon)
    2.0 * radius * Float.asin (atMostOne (Float.sqrt h))

end CoordDistance

/-- What is clustered: a footprint, the number of points it stands for, and whether it already
summarises a cluster. -/
structure ClusterItem (S : Type) where
  id : ItemId
  geometry : Geometry S
  count : Nat
  compressed : Bool

def ClusterItem.ofPoint {S : Type} (id : ItemId) (p : Coord S) : ClusterItem S :=
  ⟨id, .point p, 1, false⟩

/-- The points of two items that realised their distance, the center's first. -/
structure Contact (S : Type) where
  firstPoint : Coord S
  firstItem : ItemId
  secondPoint : Coord S
  secondItem : ItemId

def Contact.swap {S : Type} (c : Contact S) : Contact S :=
  ⟨c.secondPoint, c.secondItem, c.firstPoint, c.firstItem⟩

namespace ClusterItem

variable {S : Type} [Scalar S]

/-- The distance of two items and their closest points; an item without points has no distance. -/
def profile (d : CoordDistance) (a b : ClusterItem S) :
    Except String (DistanceProfile (Contact S)) :=
  match a.geometry.nearestPair b.geometry with
  | none =>
    .error ("no coordinates to compare between " ++ a.id.display ++ " and " ++ b.id.display)
  | some pair =>
    .ok ⟨d.measure pair.first pair.second, ⟨pair.first, a.id, pair.second, b.id⟩⟩

end ClusterItem

end DensityClustering
