import DensityClustering.Config.Basic
import DensityClustering.Cluster.Links
import DensityClustering.Cluster.Record

/-!
All clusters of a run: the clusters by handle, the cluster that owns each id, and the links between
them. Merging gives the ids of one cluster to another one and makes its handle stale; invalidating
keeps the handle but takes everything from it.
-/

namespace DensityClustering

open Std (ExtTreeMap)

/-- The clusters of a run. A handle is the number of a slot; a merged cluster leaves an empty one. -/
structure ClusterIndex (S : Type) [Scalar S] where
  config : ClusterConfig
  slots : Array (Option (Cluster S))
  owners : ExtTreeMap ItemId ClusterId
  links : LinkGraph

namespace ClusterIndex

variable {S : Type} [Scalar S]

def empty (config : ClusterConfig) : ClusterIndex S := ⟨config, #[], ∅, .empty⟩

/-- The cluster behind a handle, unless it was merged away. -/
def cluster? (x : ClusterIndex S) (c : ClusterId) : Option (Cluster S) := x.slots[c.number]?.join

/-- Replaces the cluster behind a handle that was issued. -/
def update (x : ClusterIndex S) (c : ClusterId) (cluster : Cluster S) : ClusterIndex S :=
  { x with slots := x.slots.setIfInBounds c.number (some cluster) }

def modify (x : ClusterIndex S) (c : ClusterId) (f : Cluster S → Cluster S) : ClusterIndex S :=
  match x.cluster? c with
  | some cluster => x.update c (f cluster)
  | none => x

def clusterOf (x : ClusterIndex S) (id : ItemId) : Option ClusterId := x.owners[id]?

def handles (x : ClusterIndex S) : List ClusterId := (List.range x.slots.size).map ClusterId.mk

/-- The handle leads to a cluster that was not invalidated. -/
def isLive (x : ClusterIndex S) (c : ClusterId) : Bool := (x.cluster? c).any Cluster.isLive

def clusters (x : ClusterIndex S) : List ClusterId := x.handles.filter x.isLive

/-- The size of a cluster; none for a handle that is not live. -/
def size (x : ClusterIndex S) (c : ClusterId) : Nat := (x.cluster? c).elim 0 Cluster.size

/-- The count of a cluster, `-1` once invalidated. -/
def count (x : ClusterIndex S) (c : ClusterId) : Option Int :=
  (x.cluster? c).map fun cluster => cluster.count.toInt

def members (x : ClusterIndex S) (c : ClusterId) : List ItemId :=
  (x.cluster? c).elim [] Cluster.members

def representative (x : ClusterIndex S) (c : ClusterId) : Option ItemId := (x.members c).head?

/-- Raw points were folded into the geometry, or the cluster began as a summary. -/
def isCompressed (x : ClusterIndex S) (c : ClusterId) : Bool :=
  (x.cluster? c).any Cluster.compressed

def isFinished (x : ClusterIndex S) (c : ClusterId) : Bool := (x.cluster? c).any Cluster.finished

def rawPointCount (x : ClusterIndex S) (c : ClusterId) : Nat :=
  (x.cluster? c).elim 0 fun cluster => cluster.points.size

def geometry (x : ClusterIndex S) (c : ClusterId) : Option (Geometry S) :=
  (x.cluster? c).bind Cluster.geometry

def footprint (x : ClusterIndex S) (c : ClusterId) : Option (Geometry S) :=
  (x.cluster? c).bind Cluster.footprint

def linksOf (x : ClusterIndex S) (c : ClusterId) : List ItemId := x.links.targets c

def linkCount (x : ClusterIndex S) (c : ClusterId) : Nat := x.links.count c

/-- The cluster that owns an id, created from the item if there is none. -/
def getOrCreate (x : ClusterIndex S) (id : ItemId) (item : ClusterItem S) :
    ClusterIndex S × ClusterId :=
  match x.clusterOf id with
  | some c => (x, c)
  | none =>
    let c : ClusterId := ⟨x.slots.size⟩
    ({ x with slots := x.slots.push (some (.ofItem id item)), owners := x.owners.insert id c }, c)

/-- Ids that the cluster owns or links to are to be skipped. -/
def infer (x : ClusterIndex S) (c : ClusterId) (id : ItemId) : Inference :=
  if x.clusterOf id = some c ∨ x.links.contains c id then .skip else .none

/-- Merges `other` into `into`, if both are live and differ. -/
def merge (x : ClusterIndex S) (into other : ClusterId) : ClusterIndex S :=
  if into = other then x
  else
    match (x.cluster? into).filter Cluster.isLive, (x.cluster? other).filter Cluster.isLive with
    | some cluster, some absorbed =>
      let merged := cluster.absorb x.config.compressionThreshold absorbed
      { x with
        slots := (x.slots.setIfInBounds other.number none).setIfInBounds into.number (some merged)
        owners := absorbed.members.foldl (fun owners id => owners.insert id into) x.owners
        links := x.links.absorb into other }
    | _, _ => x

/-- A search along links: the links left, the clusters that are large enough and were not reached
yet, those that were, in order, and those whose links are still to be followed, the last one reached
first, with whether links that lead nowhere are pruned. -/
structure Search where
  links : LinkGraph
  unreached : List ClusterId
  reached : List ClusterId
  frontier : List (ClusterId × Bool)

namespace Search

/-- Follows one link. A link that reaches a new cluster is used up. -/
def follow (owner : ItemId → Option ClusterId) (current : ClusterId) (prune : Bool) (s : Search)
    (target : ItemId) : Search :=
  match (owner target).filter fun c => decide (c ∈ s.unreached) with
  | some c =>
    { links := (s.links.unlink current target).1
      unreached := s.unreached.erase c
      reached := s.reached ++ [c]
      frontier := (c, false) :: s.frontier }
  | none => if prune then { s with links := (s.links.unlink current target).1 } else s

theorem follow_measure (owner : ItemId → Option ClusterId) (current : ClusterId) (prune : Bool)
    (s : Search) (target : ItemId) :
    (s.follow owner current prune target).unreached.length +
      (s.follow owner current prune target).frontier.length =
        s.unreached.length + s.frontier.length := by
  unfold follow
  split
  · next c h =>
    have mem : c ∈ s.unreached := by
      obtain ⟨_, hc⟩ := Option.filter_eq_some_iff.mp h
      exact of_decide_eq_true hc
    have := List.length_erase_of_mem mem
    have := List.length_pos_of_mem mem
    simp only [List.length_cons]
    omega
  · split <;> rfl

theorem foldl_follow_measure (owner : ItemId → Option ClusterId) (current : ClusterId)
    (prune : Bool) (targets : List ItemId) (s : Search) :
    (targets.foldl (follow owner current prune) s).unreached.length +
      (targets.foldl (follow owner current prune) s).frontier.length =
        s.unreached.length + s.frontier.length := by
  induction targets generalizing s with
  | nil => rfl
  | cons t ts ih => rw [List.foldl_cons, ih, follow_measure]

def run (owner : ItemId → Option ClusterId) (s : Search) : Search :=
  match _h : s.frontier with
  | [] => s
  | (current, prune) :: rest =>
    run owner
      ((s.links.targets current).foldl (follow owner current prune) { s with frontier := rest })
termination_by s.unreached.length + s.frontier.length
decreasing_by
  rw [foldl_follow_measure, _h]
  simp only [List.length_cons]
  omega

end Search

/-- The clusters other than `c` that are large enough to merge. -/
def mergeable (x : ClusterIndex S) (c : ClusterId) : List ClusterId :=
  x.handles.filter fun d => decide (d ≠ c) && decide (x.config.mergeSize ≤ x.size d)

/-- What a merge pass of `c` finds: every cluster that links reach from it through clusters that are
large enough, and the links left. `prune` drops the links of `c` that lead to none. A pass finds
nothing when clusters do not merge, when `c` is too small, and when it has no links. -/
def pass (x : ClusterIndex S) (c : ClusterId) (prune : Bool) : Search :=
  if x.config.kind = .preProcess ∨ x.size c < x.config.mergeSize ∨ x.linkCount c = 0 then
    ⟨x.links, x.mergeable c, [], []⟩
  else Search.run x.clusterOf ⟨x.links, x.mergeable c, [], [(c, prune)]⟩

def mergeAll (x : ClusterIndex S) (c : ClusterId) (others : List ClusterId) : ClusterIndex S :=
  others.foldl (fun x other => x.merge c other) x

def mergeReachable (x : ClusterIndex S) (c : ClusterId) (prune : Bool) : ClusterIndex S :=
  let found := x.pass c prune
  { x with links := found.links }.mergeAll c found.reached

/-- Links a cluster to an id and counts the new item; the answer tells whether it was new. Links to
ids that the cluster owns are kept but not counted. -/
def recordLink (x : ClusterIndex S) (c : ClusterId) (contact : Contact S) (id : ItemId) :
    ClusterIndex S × Bool :=
  match (x.cluster? c).filter Cluster.isLive with
  | none => (x, false)
  | some cluster =>
    match x.links.link c id with
    | (_, false) => (x, false)
    | (links, true) =>
      let linked := { x with links := links }
      if x.clusterOf id = some c then (linked, false)
      else (linked.update c (cluster.reach x.config.compressionThreshold id contact), true)

/-- Records a link; a finished cluster then merges at once with what it reached. -/
def addLink (x : ClusterIndex S) (c : ClusterId) (contact : Contact S) (id : ItemId) :
    ClusterIndex S × Bool :=
  let (grown, accepted) := x.recordLink c contact id
  (if accepted && grown.isFinished c then grown.mergeReachable c false else grown, accepted)

def finish (x : ClusterIndex S) (c : ClusterId) : ClusterIndex S :=
  (x.mergeReachable c true).modify c fun cluster => { cluster with finished := true }

/-- Takes the owned ids, the links to them, its own links, the footprint and the count from a
cluster. -/
def invalidate (x : ClusterIndex S) (c : ClusterId) : ClusterIndex S :=
  match x.cluster? c with
  | none => x
  | some cluster =>
    { x with
      slots := x.slots.setIfInBounds c.number
        (some { cluster with count := -1, geometry := none, points := ∅ })
      owners := cluster.members.foldl
        (fun owners id => if owners[id]? = some c then owners.erase id else owners) x.owners
      links := ((cluster.members.foldl LinkGraph.detach x.links).removeCluster c).1 }

def clear (x : ClusterIndex S) (c : ClusterId) : ClusterIndex S :=
  { x with links := (x.links.removeCluster c).1 }.modify c
    fun cluster => { cluster with geometry := none, points := ∅ }

/-- The owners, the members and the links fit together. -/
def isConsistent (x : ClusterIndex S) : Bool :=
  (x.owners.all fun id c => x.isLive c && (x.members c).contains id) &&
  (x.clusters.all fun c => (x.members c).all fun id => x.clusterOf id == some c) &&
  x.links.isConsistent

end ClusterIndex

end DensityClustering
