import DensityClustering.Proofs.Cluster.Operation
import DensityClustering.Proofs.Geometry.HullVertices

/-!
The order in which points are listed. A hull sorts its points by an order that tells every two of
them apart, so that it is the same for every listing of them; and all that a cluster does with its
raw points is to enclose them in a hull or to put them into another set.
-/

namespace DensityClustering

variable {S : Type} [Scalar S]

namespace Hull

variable {points points' : List (Coord S)}

theorem mergeSort_order_of_perm (h : points.Perm points') :
    points.mergeSort (fun a b => (Coord.order a b).isLE) =
      points'.mergeSort fun a b => (Coord.order a b).isLE := by
  refine List.Perm.eq_of_pairwise (fun a b _ _ hab hba => ?_) (pairwise_mergeSort_order points)
    (pairwise_mergeSort_order points') ?_
  · exact Std.LawfulEqCmp.eq_of_compare (Std.OrientedCmp.isLE_antisymm hab hba)
  · exact (List.mergeSort_perm ..).trans (h.trans (List.mergeSort_perm ..).symm)

theorem sites_of_perm (h : points.Perm points') : sites points = sites points' := by
  unfold sites
  rw [mergeSort_order_of_perm (h.filter Coord.isFinite)]

theorem vertices_of_perm (h : points.Perm points') : vertices points = vertices points' := by
  unfold vertices
  rw [sites_of_perm h]

end Hull

/-- Neither the points that a geometry is asked to cover nor those of a hull come in an order. -/
theorem hull_of_perm (existing : Option (Geometry S)) {points points' : List (Coord S)}
    (h : points.Perm points') (rebuild : Bool) :
    hull existing points rebuild = hull existing points' rebuild := by
  unfold hull
  cases existing with
  | none => simp only [Hull.vertices_of_perm (h.append_left _)]
  | some g => simp only [Hull.vertices_of_perm (h.append_left _), h.all_eq]

/-- A way to list sets of points: every point once, in an order that may be another one for each
set. -/
structure Listing (S : Type) [Scalar S] where
  list : PointSet S → List (Coord S)
  perm : ∀ set, (list set).Perm set.toList

/-- The set with the listed points put in one after the other. -/
def PointSet.takeAll (set : PointSet S) (points : List (Coord S)) : PointSet S :=
  points.foldl (fun set p => set.insert p) set

theorem PointSet.mem_takeAll {p : Coord S} (set : PointSet S) (points : List (Coord S)) :
    p ∈ set.takeAll points ↔ p ∈ set ∨ p ∈ points := by
  unfold takeAll
  induction points generalizing set with
  | nil => simp only [List.foldl_nil, List.not_mem_nil, or_false]
  | cons q points ih =>
    rw [List.foldl_cons, ih, Std.ExtTreeSet.mem_insert, Std.LawfulEqCmp.compare_eq_iff_eq,
      List.mem_cons, eq_comm, or_assoc, or_left_comm]

/-- A set taken in point by point, in whatever order, is joined. -/
theorem PointSet.takeAll_list (l : Listing S) (set other : PointSet S) :
    set.takeAll (l.list other) = set ∪ other := by
  apply Std.ExtTreeSet.ext_mem
  intro p
  rw [mem_takeAll, (l.perm other).mem_iff, Std.ExtTreeSet.mem_toList, Std.ExtTreeSet.mem_union_iff]

namespace Cluster

/-- The footprint, with the raw points as listed. -/
def footprintBy (l : Listing S) (k : Cluster S) : Option (Geometry S) :=
  hull k.geometry (l.list k.points) true

/-- Folds the raw points as listed into the geometry when there are more than `threshold`. -/
def compressBy (l : Listing S) (threshold : Nat) (k : Cluster S) : Cluster S :=
  if k.points.size ≤ threshold then k
  else
    { k with
      geometry := (hull k.geometry (l.list k.points) true).or k.geometry
      points := ∅
      compressed := true }

/-- Takes over another cluster: its raw points one by one as listed, and then all of them, listed
once more, into the geometry when they are too many. -/
def absorbBy (l again : Listing S) (threshold : Nat) (k other : Cluster S) : Cluster S :=
  let corners := k.corners other
  let points := corners.takeAll (l.list other.points)
  compressBy again threshold { k with
    members := k.members ++ other.members
    count := k.count + .ofInt (k.interpolated other) + .ofInt (points.size - corners.size : Int)
    geometry := k.joinedGeometry other
    points := points }

theorem footprintBy_eq (l : Listing S) (k : Cluster S) : k.footprintBy l = k.footprint :=
  hull_of_perm _ (l.perm k.points) true

theorem compressBy_eq (l : Listing S) (threshold : Nat) (k : Cluster S) :
    k.compressBy l threshold = k.compress threshold := by
  unfold compressBy compress
  rw [hull_of_perm _ (l.perm k.points)]

theorem absorbBy_eq (l again : Listing S) (threshold : Nat) (k other : Cluster S) :
    k.absorbBy l again threshold other = k.absorb threshold other := by
  unfold absorbBy absorb
  simp only [compressBy_eq, PointSet.takeAll_list]

end Cluster

namespace ClusterIndex

/-- The footprint behind a handle, with the raw points as listed. -/
def footprintBy (l : Listing S) (x : ClusterIndex S) (c : ClusterId) : Option (Geometry S) :=
  (x.cluster? c).bind (Cluster.footprintBy l)

/-- The merge of two clusters, with the raw points as listed. -/
def mergeBy (l again : Listing S) (x : ClusterIndex S) (into other : ClusterId) : ClusterIndex S :=
  if into = other then x
  else
    match (x.cluster? into).filter Cluster.isLive, (x.cluster? other).filter Cluster.isLive with
    | some cluster, some absorbed =>
      let merged := cluster.absorbBy l again x.config.compressionThreshold absorbed
      { x with
        slots := (x.slots.setIfInBounds other.number none).setIfInBounds into.number (some merged)
        owners := absorbed.members.foldl (fun owners id => owners.insert id into) x.owners
        links := x.links.absorb into other }
    | _, _ => x

end ClusterIndex

/-- A hull is the same, bit for bit, for every listing of its points, whether it is rebuilt or may
be kept. So no order in which a set of raw points is listed shows in the footprint of a cluster, in
what compression makes of it, or in a merge. -/
theorem hull_ignores_listing :
    (∀ (existing : Option (Geometry S)) (rebuild : Bool) (points points' : List (Coord S)),
      points.Perm points' → hull existing points rebuild = hull existing points' rebuild) ∧
    (∀ (l : Listing S) (x : ClusterIndex S) (c : ClusterId), x.footprintBy l c = x.footprint c) ∧
    (∀ (l : Listing S) (threshold : Nat) (k : Cluster S),
      k.compressBy l threshold = k.compress threshold) ∧
    ∀ (l again : Listing S) (x : ClusterIndex S) (into other : ClusterId),
      x.mergeBy l again into other = x.merge into other := by
  refine ⟨fun existing rebuild points points' h => hull_of_perm existing h rebuild, ?_,
    Cluster.compressBy_eq, ?_⟩
  · intro l x c
    have hrecord : Cluster.footprintBy l = Cluster.footprint := funext (Cluster.footprintBy_eq l)
    rw [ClusterIndex.footprintBy, hrecord, ClusterIndex.footprint]
  · intro l again x into other
    have habsorb : Cluster.absorbBy l again = Cluster.absorb := by
      funext threshold k absorbed
      exact Cluster.absorbBy_eq l again threshold k absorbed
    unfold ClusterIndex.mergeBy ClusterIndex.merge
    exact habsorb ▸ rfl

/-- Points of every sort: no number, infinite, and zeros of both signs. -/
def motleyPoints : List (Coord Float) :=
  [⟨0 / 0, 1⟩, ⟨1 / 0, 0⟩, ⟨0, 0⟩, ⟨-0.0, 0⟩, ⟨0, -0.0⟩, ⟨2, 1⟩, ⟨1, 3⟩, ⟨-1 / 0, 0 / 0⟩]

/-- They have the same hull backwards, and the same answer whether a point has them covered. -/
theorem motley_hull_backwards :
    motleyPoints.Perm motleyPoints.reverse ∧
    hull none motleyPoints true = hull none motleyPoints.reverse true ∧
    hull (some (.point ⟨2, 1⟩)) motleyPoints false =
      hull (some (.point ⟨2, 1⟩)) motleyPoints.reverse false := by
  have hperm : motleyPoints.Perm motleyPoints.reverse := (List.reverse_perm motleyPoints).symm
  obtain ⟨hhull, -⟩ := hull_ignores_listing (S := Float)
  exact ⟨hperm, hhull none true _ _ hperm, hhull (some (.point ⟨2, 1⟩)) false _ _ hperm⟩

end DensityClustering
