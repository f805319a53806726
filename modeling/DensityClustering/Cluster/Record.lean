import Std.Data.ExtTreeSet
import DensityClustering.Cluster.Distance
import DensityClustering.Geometry.Centroid
import DensityClustering.Geometry.Combine

/-!
One cluster: its members, an approximate count, and its footprint, which is a geometry together with
raw points that were not folded into it yet.
-/

namespace DensityClustering

open Std (ExtTreeSet)

/-- A set of points, zeros of both signs counting as one. -/
abbrev PointSet (S : Type) [Scalar S] := ExtTreeSet (Coord S) Coord.order

/-- What is stored of a cluster. -/
structure Cluster (S : Type) [Scalar S] where
  /-- The first one represents the cluster. -/
  members : List ItemId
  /-- Negative once the cluster is invalid. A sum that leaves the 64 bits wraps around. -/
  count : Int64
  geometry : Option (Geometry S)
  points : PointSet S
  /-- The first member is a point, which its hull always contains. -/
  startedAsPoint : Bool
  compressed : Bool
  finished : Bool

/-- The largest count an item can bring. -/
def largestCount : Nat := 9223372036854775807

def PointSet.addAll {S : Type} [Scalar S] (set : PointSet S) (points : List (Coord S)) :
    PointSet S :=
  points.foldl (fun set p => set.insert p.unsigned) set

/-- The geometry of both: the union, or a hull where there is none. -/
def Geometry.unionOrHull {S : Type} [Scalar S] (this : Option (Geometry S)) (other : Geometry S) :
    Option (Geometry S) :=
  match this with
  | none => some other
  | some g =>
    match g.union other with
    | .ok u => some u
    | .error _ => (hull (some g) other.coords false).or (some g)

/-- The share of `other` that `this` does not cover yet. -/
def Geometry.freshShare {S : Type} [Scalar S] (this other : Option (Geometry S)) : S :=
  match this, other with
  | some this, some other =>
    match other.intersection this with
    | .error _ => 0
    | .ok common =>
      if common.isPoint && other.isPoint then 0
      else if common.isEmpty then 1
      else if 0 < other.area then 1 - common.area / other.area
      else 0
  | _, _ => 1

namespace Cluster

variable {S : Type} [Scalar S]

/-- A cluster of one item. Only points and compressed items bring a geometry of their own; of these
the centroid counts as a raw point. -/
def ofItem (id : ItemId) (item : ClusterItem S) : Cluster S :=
  let ownsGeometry := item.geometry.isPoint || item.compressed
  { members := [id]
    count := .ofNat (min item.count largestCount)
    geometry := if ownsGeometry then some item.geometry else none
    points := if ownsGeometry then PointSet.addAll ∅ item.geometry.centroid.toList else ∅
    startedAsPoint := item.geometry.isPoint
    compressed := item.compressed
    finished := false }

def isLive (c : Cluster S) : Bool := 0 ≤ c.count

/-- The count, none for an invalid cluster. -/
def size (c : Cluster S) : Nat := c.count.toNatClampNeg

/-- Folds the raw points into the geometry when there are more than `threshold`. -/
def compress (threshold : Nat) (c : Cluster S) : Cluster S :=
  if c.points.size ≤ threshold then c
  else
    { c with
      geometry := (hull c.geometry c.points.toList true).or c.geometry
      points := ∅
      compressed := true }

def footprint (c : Cluster S) : Option (Geometry S) := hull c.geometry c.points.toList true

/-- The points that a contact adds to the cluster of one of its items when it links to `id`: the
other item's, and its own unless it started as a point. -/
def contactPoints (c : Cluster S) (id : ItemId) (contact : Contact S) : List (Coord S) :=
  let own := if contact.firstItem = id then contact.secondPoint else contact.firstPoint
  let theirs := if contact.secondItem = id then contact.secondPoint else contact.firstPoint
  if c.startedAsPoint then [theirs] else [own, theirs]

/-- Counts a new item and adds the points of the contact with it. -/
def reach (threshold : Nat) (c : Cluster S) (id : ItemId) (contact : Contact S) : Cluster S :=
  let points := c.points.addAll (c.contactPoints id contact)
  let grown : Cluster S :=
    if points.size = c.points.size then c else compress threshold { c with points := points }
  { grown with count := grown.count + 1 }

/-- The count that comes over as a share: of two compressed clusters the part that is not covered
yet, less the raw points. -/
def interpolated (c other : Cluster S) : Int :=
  if c.compressed && other.compressed then
    Scalar.truncate (Geometry.freshShare c.geometry other.geometry *
      Scalar.ofInt (other.count.toInt - other.points.size))
  else 0

/-- The geometry of both clusters if the first one is compressed, its own otherwise. -/
def joinedGeometry (c other : Cluster S) : Option (Geometry S) :=
  match other.geometry with
  | some g => if c.compressed then Geometry.unionOrHull c.geometry g else c.geometry
  | none => c.geometry

/-- The raw points of a cluster, and the vertices of another one's geometry unless the geometries
are joined. -/
def corners (c other : Cluster S) : PointSet S :=
  match other.geometry with
  | some g => if c.compressed then c.points else c.points.addAll g.coords
  | none => c.points

/-- Takes over the members, the footprint and the count of another cluster. Of two compressed
clusters only the share that is not covered yet counts, and otherwise only new raw points. -/
def absorb (threshold : Nat) (c other : Cluster S) : Cluster S :=
  let corners := c.corners other
  let points := corners ∪ other.points
  compress threshold { c with
    members := c.members ++ other.members
    count := c.count + .ofInt (c.interpolated other) + .ofInt (points.size - corners.size : Int)
    geometry := c.joinedGeometry other
    points := points }

end Cluster

end DensityClustering
