import DensityClustering.Cluster.NeighborList
import DensityClustering.Neighbor.Traversal

/-!
Clustering a partition group: a traversal with clusters as neighbour lists, in which every visited
primary either finishes its cluster or, when that is too small, invalidates it as noise.
-/

namespace DensityClustering

structure ClusterSummary (S : Type) where
  id : ItemId
  members : List ItemId
  count : Nat
  geometry : Option (Geometry S)
  compressed : Bool

/-- The item that stands for the cluster in a later run. -/
def ClusterSummary.toItem {S : Type} (s : ClusterSummary S) : Option (ClusterItem S) :=
  s.geometry.map fun g => ⟨s.id, g, s.count, true⟩

namespace ClusterIndex

variable {S : Type} [Scalar S]

def summary (x : ClusterIndex S) (c : ClusterId) : Option (ClusterSummary S) :=
  (x.representative c).map fun id =>
    ⟨id, x.members c, x.size c, x.footprint c, x.isCompressed c⟩

/-- The live clusters of at least the given size, in the order of their creation. -/
def summaries (x : ClusterIndex S) (minOwners : Nat) : List (ClusterSummary S) :=
  (x.clusters.filter fun c => decide (minOwners ≤ x.size c)).filterMap x.summary

end ClusterIndex

namespace Clustering

variable {S : Type} [Scalar S]

/-- Finishes the cluster of a completed center, or invalidates it as noise. -/
def settle (minOwners : Nat) (l : ClusterList) (x : ClusterIndex S) : ClusterIndex S :=
  if l.size x < minOwners then l.invalidate x else l.finish x

/-- The distance function and the lists of a clustering run, and how it completes a center. -/
def collaborators (config : RunConfig) :
    Collaborators (ClusterIndex S) (ClusterItem S) (Contact S) ClusterList where
  lists := ClusterList.kind
  measure a b x := (a.profile config.coordDistance b, x)
  complete _ _ l x := (.ok (), settle config.minOwners l x)

def intake (place : ClusterItem S → Placement) : Intake (ClusterItem S) (ClusterItem S) where
  convert _ item := .ok item
  place := place

def store (place : ClusterItem S → Placement) (g : Group (ClusterItem S)) :
    List (ClusterItem S × Bool) → Except NeighborError (Group (ClusterItem S))
  | [] => .ok g
  | (item, primary) :: rest =>
    match g.add (intake place) item.id primary item with
    | .error e => .error e
    | .ok g => store place g rest

/-- The traversal of a group with clusters as lists. -/
def traversal (config : RunConfig) (g : Group (ClusterItem S)) :
    Outcome (ClusterIndex S) ClusterList :=
  g.traverse (collaborators config) (.empty config.cluster)

/-- Clusters the items of a partition group, each of them a primary or not. -/
def run (config : RunConfig) (parent : Descriptor) (place : ClusterItem S → Placement)
    (items : List (ClusterItem S × Bool)) : Except NeighborError (List (ClusterSummary S)) :=
  match store place (.empty config.maxDistance parent) items with
  | .error e => .error e
  | .ok g =>
    match traversal config g with
    | ⟨_, _, some e⟩ => .error e
    | ⟨x, _, none⟩ => .ok (x.summaries config.minOwners)

end Clustering

end DensityClustering
