import DensityClustering.Neighbor.ItemId
import DensityClustering.Neighbor.PartitionKey

/-!
What can go wrong while points are stored or traversed. Each error carries the text of the
collaborator that failed.
-/

namespace DensityClustering

/-- The collaborator that stopped a traversal, and what it said. -/
inductive TraversalCause where
  | distance (source : String)
  | completion (source : String)
  deriving DecidableEq, Repr

def TraversalCause.source : TraversalCause → String
  | distance s => s
  | completion s => s

inductive NeighborError where
  /-- The value of a point could not be converted; the point was not stored. -/
  | conversion (id : ItemId) (source : String)
  /-- A point could not be placed into partitions; it was not stored. -/
  | placement (id : ItemId) (source : String)
  /-- The traversal of a partition stopped at a center. -/
  | traversal (parent : PartitionKey) (id : ItemId) (cause : TraversalCause)
  deriving DecidableEq, Repr

namespace NeighborError

def source : NeighborError → String
  | conversion _ s => s
  | placement _ s => s
  | traversal _ _ cause => cause.source

def message : NeighborError → String
  | conversion id s => "cannot convert value for item " ++ id.display ++ ": " ++ s
  | placement id s => "I/O error partitioning item " ++ id.display ++ ": " ++ s
  | traversal parent id cause =>
    let what := match cause with
      | .distance _ => "distance profile failed"
      | .completion _ => "completion notifier failed"
    "traversal of partition " ++ parent.display ++ " aborted at item " ++ id.display ++ ": " ++
      what ++ ": " ++ cause.source

end NeighborError

end DensityClustering
