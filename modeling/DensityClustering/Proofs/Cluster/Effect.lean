import DensityClustering.Proofs.Cluster.Lifecycle
import DensityClustering.Proofs.Cluster.Wiring

/-!
What a merge, an invalidation and a new link change, and that they change nothing else. Each of them
has one structure that says all of it; every cluster that the operation is not about is kept, with its
record, its links and the ids it owns.
-/

namespace DensityClustering

namespace ClusterIndex

variable {S : Type} [Scalar S]

/-- A cluster that is left alone. -/
structure Kept (x y : ClusterIndex S) (d : ClusterId) : Prop where
  record : y.cluster? d = x.cluster? d
  links : y.linksOf d = x.linksOf d
  owned : ∀ id, y.clusterOf id = some d ↔ x.clusterOf id = some d

/-- Everything was taken from `c`, and its ids belong to no cluster. -/
structure Emptied (x : ClusterIndex S) (c : ClusterId) (y : ClusterIndex S) : Prop where
  count : y.count c = some (-1)
  bare : y.linksOf c = [] ∧ y.geometry c = none ∧ y.rawPointCount c = 0
  disowned : ∀ m ∈ x.members c, y.clusterOf m = none
  unlinked : ∀ m ∈ x.members c, ∀ d, m ∉ y.linksOf d
  record : ∀ d, d ≠ c → y.cluster? d = x.cluster? d
  links : ∀ d, d ≠ c → ∀ t, t ∉ x.members c → (t ∈ y.linksOf d ↔ t ∈ x.linksOf d)
  owner : ∀ id, id ∉ x.members c → y.clusterOf id = x.clusterOf id
  reborn : ∀ m ∈ x.members c, ∀ item : ClusterItem S,
    (y.getOrCreate m item).2 ∉ y.handles ∧
    (y.getOrCreate m item).1.members (y.getOrCreate m item).2 = [m] ∧
    (y.getOrCreate m item).1.clusterOf m = some (y.getOrCreate m item).2

variable {x y : ClusterIndex S} {c d into other : ClusterId} {id : ItemId}

theorem handles_congr (h : y.slots.size = x.slots.size) : y.handles = x.handles := by
  rw [handles, handles, h]

theorem count_of_cluster? {k : Cluster S} (h : x.cluster? c = some k) :
    x.count c = some k.count.toInt := by
  rw [count, h, Option.map_some]

namespace Merged

variable {k a : Cluster S}

/-- What changes hands is what the absorbed cluster owned. -/
theorem owner_eq (h : Merged x into other k a y) (hown : Ownership x)
    (ha : x.cluster? other = some a) (hal : a.isLive = true) (id : ItemId) :
    y.clusterOf id = if x.clusterOf id = some other then some into else x.clusterOf id := by
  have hmem : id ∈ a.members ↔ x.clusterOf id = some other := by
    constructor
    · exact hown.owner_of_live ha hal id
    · intro hid
      exact x.members_of_cluster? ha ▸ hown.listed id other hid
  rw [h.owner]
  simp only [hmem]

/-- A third cluster neither gains nor loses anything. -/
theorem kept (h : Merged x into other k a y) (hown : Ownership x)
    (ha : x.cluster? other = some a) (hal : a.isLive = true) (hi : d ≠ into) (ho : d ≠ other) :
    Kept x y d := by
  refine ⟨?_, LinkGraph.targets_congr fun t => ?_, fun id => ?_⟩
  · exact h.record_of_ne hi ho
  · rw [h.links, LinkGraph.contains_absorb]
    simp [hi, ho]
  · rw [h.owner_eq hown ha hal]
    split
    · next hid =>
      rw [hid, Option.some.injEq, Option.some.injEq]
      exact iff_of_false hi.symm ho.symm
    · rfl

end Merged

/-- The ids of an invalidated cluster can be clustered again, under a handle of their own. -/
theorem getOrCreate_reborn (hid : x.clusterOf id = none) (item : ClusterItem S) :
    (x.getOrCreate id item).2 ∉ x.handles ∧
    (x.getOrCreate id item).1.members (x.getOrCreate id item).2 = [id] ∧
    (x.getOrCreate id item).1.clusterOf id = some (x.getOrCreate id item).2 := by
  have hanswer : (x.getOrCreate id item).2 = ⟨x.slots.size⟩ := (getOrCreate_of_none item hid).1
  rw [hanswer]
  refine ⟨?_, ?_, ?_⟩
  · rw [x.mem_handles]
    exact Nat.lt_irrefl _
  · rw [x.members_getOrCreate item hid, if_pos rfl]
  · rw [x.clusterOf_getOrCreate item hid, if_pos rfl]

/-- Invalidating takes everything from a live cluster, and from the others no more than their links
to its ids. -/
theorem invalidate_exact (config : ClusterConfig) (ops : List (Operation S)) (c : ClusterId)
    (hlive : (after config ops).isLive c = true) :
    Emptied (after config ops) c ((after config ops).invalidate c) := by
  have hwired : Wired (after config ops : ClusterIndex S) := Wired.after config ops
  generalize (after config ops : ClusterIndex S) = x at hlive hwired
  obtain ⟨k, hk, hkl⟩ := x.isLive_iff.mp hlive
  have hmem : x.members c = k.members := x.members_of_cluster? hk
  have hrec := x.cluster?_invalidate hk
  have hlinks : ∀ d t, t ∈ (x.invalidate c).linksOf d ↔
      t ∈ x.linksOf d ∧ t ∉ x.members c ∧ d ≠ c := by
    intro d t
    rw [mem_linksOf, mem_linksOf, hmem]
    exact contains_invalidate hwired.mirrored hk d t
  have hdisowned : ∀ m ∈ x.members c, (x.invalidate c).clusterOf m = none := by
    intro m hm
    have hown : x.clusterOf m = some c := hwired.own.clusterOf_of_mem_members hlive hm
    rw [x.clusterOf_invalidate hk, if_pos ⟨hmem ▸ hm, hown⟩]
  refine ⟨?_, ⟨?_, ?_, ?_⟩, hdisowned, fun m hm d hd => ?_, fun d hd => ?_, fun d hd t ht => ?_,
    fun id hid => ?_, fun m hm item => getOrCreate_reborn (hdisowned m hm) item⟩
  · rw [count, hrec, if_pos rfl]
    rfl
  · rw [List.eq_nil_iff_forall_not_mem]
    intro t ht
    exact ((hlinks c t).mp ht).2.2 rfl
  · rw [geometry, hrec, if_pos rfl]
    rfl
  · rw [rawPointCount, hrec, if_pos rfl]
    exact Std.ExtTreeSet.size_empty
  · exact ((hlinks d m).mp hd).2.1 hm
  · rw [hrec, if_neg hd]
  · rw [hlinks]
    exact and_iff_left ⟨ht, hd⟩
  · rw [x.clusterOf_invalidate hk, if_neg]
    intro h
    exact hid (hmem ▸ h.1)

/-- Two points in one cluster, to both of which a third one is linked. -/
def watchedPair : List (Operation Rat) :=
  [pointAt 0, pointAt 1, pointAt 2, .merge ⟨0⟩ ⟨1⟩, .link ⟨2⟩ (contactAt 2 0) ⟨[0]⟩,
    .link ⟨2⟩ (contactAt 2 1) ⟨[1]⟩, .link ⟨2⟩ (contactAt 2 9) ⟨[9]⟩]

/-- The third point loses both links with the pair, and keeps the other one. -/
theorem invalidate_exact_of_pair :
    Emptied (after ⟨2, 200, .merging⟩ watchedPair) ⟨0⟩
      ((after ⟨2, 200, .merging⟩ watchedPair).invalidate ⟨0⟩) ∧
    ((after ⟨2, 200, .merging⟩ watchedPair).invalidate ⟨0⟩).linksOf ⟨2⟩ = [⟨[9]⟩] :=
  ⟨invalidate_exact ⟨2, 200, .merging⟩ watchedPair ⟨0⟩ (by decide +kernel), by decide +kernel⟩

end ClusterIndex

end DensityClustering
