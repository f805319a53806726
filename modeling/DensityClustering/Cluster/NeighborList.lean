import DensityClustering.Cluster.Index

/-!
Neighbour lists that are clusters: the list of a center stands for whichever cluster owns the center
at the time.
-/

namespace DensityClustering

/-- The neighbour list of a center. -/
structure ClusterList where
  center : ItemId
  deriving DecidableEq, Repr

namespace ClusterList

variable {S : Type} [Scalar S]

/-- The cluster behind the list; none once it was invalidated. -/
def cluster (l : ClusterList) (x : ClusterIndex S) : Option ClusterId := x.clusterOf l.center

def act (l : ClusterList) (x : ClusterIndex S)
    (f : ClusterIndex S → ClusterId → ClusterIndex S) : ClusterIndex S :=
  match l.cluster x with
  | some c => f x c
  | none => x

def finish (l : ClusterList) (x : ClusterIndex S) : ClusterIndex S := l.act x .finish

def invalidate (l : ClusterList) (x : ClusterIndex S) : ClusterIndex S := l.act x .invalidate

def clear (l : ClusterList) (x : ClusterIndex S) : ClusterIndex S := l.act x .clear

def size (l : ClusterList) (x : ClusterIndex S) : Nat := (l.cluster x).elim 0 x.size

def isFinished (l : ClusterList) (x : ClusterIndex S) : Bool := (l.cluster x).any x.isFinished

def isCompressed (l : ClusterList) (x : ClusterIndex S) : Bool := (l.cluster x).any x.isCompressed

/-- The list of a center, whose cluster is created if need be. -/
def build (x : ClusterIndex S) (center : ItemId) (item : ClusterItem S) :
    ClusterIndex S × ClusterList :=
  ((x.getOrCreate center item).1, ⟨center⟩)

/-- Links the cluster to a neighbour; the answer tells whether the link was new. -/
def add (l : ClusterList) (x : ClusterIndex S) (contact : Contact S) (id : ItemId) :
    ClusterIndex S × Bool :=
  match l.cluster x with
  | some c => x.addLink c contact id
  | none => (x, false)

def infer (l : ClusterList) (x : ClusterIndex S) (id : ItemId) : Inference :=
  match l.cluster x with
  | some c => x.infer c id
  | none => .skip

def kind : ListKind (ClusterIndex S) (ClusterItem S) (Contact S) ClusterList where
  build center item x :=
    let (x, l) := build x center item
    (l, x)
  add l profile id _ x :=
    let (x, accepted) := l.add x profile.context id
    (accepted, l, x)
  infer l id _ x := l.infer x id

end ClusterList

end DensityClustering
