import DensityClustering.Cluster.Distance

/-!
The settings of a run, their defaults, and which of them are valid.
-/

namespace DensityClustering

structure NeighborConfig where
  /-- Neighbours up to this distance are accepted. -/
  maxDistance : Float
  deriving DecidableEq, Repr

/-- What clusters do with their links. -/
inductive ClusterKind where
  /-- Clusters that are large enough merge along their links. -/
  | merging
  /-- Clusters never merge: a first summarising pass over dense data. -/
  | preProcess
  deriving DecidableEq, Repr

structure ClusterConfig where
  /-- Both ends of a link must have this size before they merge. -/
  mergeSize : Nat
  /-- A cluster with more raw points than this folds them into its hull. -/
  compressionThreshold : Nat
  kind : ClusterKind
  deriving DecidableEq, Repr

structure RunConfig where
  maxDistance : Float
  /-- Clusters below this size are noise; it is the merge size, too. -/
  minOwners : Nat
  compressionThreshold : Nat
  kind : ClusterKind
  coordDistance : CoordDistance
  deriving DecidableEq, Repr

def defaultCompressionThreshold : Nat := 200

def NeighborConfig.default : NeighborConfig := ⟨1.0⟩

def ClusterConfig.default : ClusterConfig := ⟨2, defaultCompressionThreshold, .merging⟩

namespace RunConfig

def default : RunConfig := ⟨1.0, 2, defaultCompressionThreshold, .merging, .euclidean⟩

def neighbor (c : RunConfig) : NeighborConfig := ⟨c.maxDistance⟩

def cluster (c : RunConfig) : ClusterConfig := ⟨c.minOwners, c.compressionThreshold, c.kind⟩

inductive Fault where
  | maxDistance
  | minOwners
  | compressionThreshold
  | radius
  deriving DecidableEq, Repr

def Fault.reason : Fault → String
  | maxDistance => "max_distance must be finite and >= 0"
  | minOwners => "min_owners must be > 0"
  | compressionThreshold => "compression_threshold must be > 0"
  | radius => "haversine radius must be > 0"

/-- The sphere, if distances are measured on one, has a finite and positive radius. -/
def hasValidRadius (c : RunConfig) : Bool :=
  match c.coordDistance with
  | .euclidean => true
  | .haversine radius => radius.isFinite && 0 < radius

/-- The first fault of the settings, in the order of the fields. -/
def fault? (c : RunConfig) : Option Fault :=
  if !c.maxDistance.isFinite || c.maxDistance < 0 then some .maxDistance
  else if c.minOwners = 0 then some .minOwners
  else if c.compressionThreshold = 0 then some .compressionThreshold
  else if !c.hasValidRadius then some .radius
  else none

end RunConfig

end DensityClustering
