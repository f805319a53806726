import DensityClustering.Proofs.Cluster.Threshold
import DensityClustering.Proofs.Geometry.Rebuild
import DensityClustering.Proofs.Neighbor.Agreement
import DensityClustering.Proofs.Run.Recording
import DensityClustering.Proofs.Run.Summaries

/-!
Compression in a run without merges. Nothing that a traversal asks of the clusters depends on when
raw points are folded, so that every threshold leads to the same operations; and in exact arithmetic
a footprint is the hull of all that its cluster was made of, however often it was folded.
-/

namespace DensityClustering

open ClusterIndex (Operation OfRun after supply Alike)
open Hull (Apart)

namespace RunConfig

/-- The same settings with another compression threshold. -/
def withThreshold (config : RunConfig) (threshold : Nat) : RunConfig :=
  { config with compressionThreshold := threshold }

variable (config : RunConfig) (threshold : Nat)

@[simp] theorem maxDistance_withThreshold :
    (config.withThreshold threshold).maxDistance = config.maxDistance := rfl

@[simp] theorem minOwners_withThreshold :
    (config.withThreshold threshold).minOwners = config.minOwners := rfl

theorem withThreshold_self : config.withThreshold config.compressionThreshold = config := rfl

end RunConfig

/-- The summary, but for the mark of a compressed cluster. -/
def ClusterSummary.unmarked {S : Type} (s : ClusterSummary S) : ClusterSummary S :=
  { s with compressed := false }

namespace ClusterIndex

variable {S : Type} [Scalar S] {x y : ClusterIndex S}

theorem Alike.clusters_eq (h : Alike x y) : y.clusters = x.clusters := by
  unfold clusters handles
  rw [h.issued]
  exact List.filter_congr fun c _ => h.isLive_eq c

/-- Where footprints are the same, so are the summaries. -/
theorem Alike.summaries_eq (h : Alike x y)
    (hfootprint : ∀ c ∈ x.clusters, y.footprint c = x.footprint c) (minOwners : Nat) :
    (y.summaries minOwners).map ClusterSummary.unmarked =
      (x.summaries minOwners).map ClusterSummary.unmarked := by
  unfold summaries
  rw [h.clusters_eq, List.map_filterMap, List.map_filterMap]
  have hlarge : (x.clusters.filter fun c => decide (minOwners ≤ y.size c)) =
      x.clusters.filter fun c => decide (minOwners ≤ x.size c) :=
    List.filter_congr fun c _ => by rw [h.size_eq]
  rw [hlarge]
  refine List.filterMap_congr fun c hc => ?_
  have hlive : c ∈ x.clusters := List.mem_of_mem_filter hc
  unfold summary representative
  rw [h.members_eq, h.size_eq, hfootprint c hlive, Option.map_map, Option.map_map]
  rfl

end ClusterIndex

namespace Clustering

variable {S : Type} [Scalar S]

theorem ofRun_recording (config : RunConfig) : Keeps OfRun (recording (S := S) config) where
  build _ _ _ h := ClusterIndex.ofRun_concat.mpr ⟨h, rfl⟩
  add l p id v ops h := by
    show OfRun (Prod.snd (Prod.snd _))
    unfold recording
    dsimp only
    split
    · exact ClusterIndex.ofRun_concat.mpr ⟨h, rfl⟩
    · exact h
  measure _ _ _ h := h
  complete id v l ops h := by
    show OfRun (settlement config l ops)
    unfold settlement
    split
    · split <;> exact ClusterIndex.ofRun_concat.mpr ⟨h, rfl⟩
    · exact h

/-- No answer to a traversal depends on the threshold. -/
theorem agree_recording {config : RunConfig} (hkind : config.kind = .preProcess)
    (threshold : Nat) : Agree OfRun (recording (S := S) config)
      (recording (config.withThreshold threshold)) := by
  let config' := config.withThreshold threshold
  have halike : ∀ ops : List (Operation S), OfRun ops →
      Alike (after config.cluster ops) (after config'.cluster ops) :=
    fun ops hops => ClusterIndex.alike_after hkind hkind hops
  have hcluster : ∀ (l : ClusterList) (ops : List (Operation S)), OfRun ops →
      l.cluster (after config'.cluster ops) = l.cluster (after config.cluster ops) :=
    fun l ops hops => (halike ops hops).clusterOf_eq l.center
  refine ⟨fun _ _ _ _ => rfl, fun l p id v ops hops => ?_, fun l id v ops hops => ?_,
    fun _ _ _ _ => rfl, fun id v l ops hops => ?_⟩
  · unfold recording
    dsimp only
    rw [hcluster l ops hops]
    cases l.cluster (after config.cluster ops) with
    | none => rfl
    | some c =>
      dsimp only
      rw [((halike ops hops).addLink c p.context id).1]
  · show l.infer (after config'.cluster ops) id = l.infer (after config.cluster ops) id
    unfold ClusterList.infer ClusterIndex.infer
    rw [hcluster l ops hops, (halike ops hops).clusterOf_eq, (halike ops hops).links]
  · show (_, settlement config' l ops) = (_, settlement config l ops)
    unfold settlement
    rw [hcluster l ops hops]
    cases l.cluster (after config.cluster ops) with
    | none => rfl
    | some c =>
      dsimp only
      rw [(halike ops hops).size_eq, config.minOwners_withThreshold]

/-- The threshold changes nothing about a traversal in which clusters do not merge. -/
theorem traverse_recording_eq {config : RunConfig} (hkind : config.kind = .preProcess)
    (threshold : Nat) (g : Group (ClusterItem S)) :
    g.traverse (recording (config.withThreshold threshold)) [] =
      g.traverse (recording config) [] :=
  (agree_recording hkind threshold).traverse_eq (ofRun_recording config) g nofun

section Run

variable (config : RunConfig) (parent : Descriptor) (place : ClusterItem S → Placement)
  (items : List (ClusterItem S × Bool))

theorem ofRun_operations : OfRun (operations config parent place items) := by
  unfold operations
  split
  · exact nofun
  · exact (ofRun_recording config).traverse _ nofun

theorem operations_eq (hkind : config.kind = .preProcess) (threshold : Nat) :
    operations (config.withThreshold threshold) parent place items =
      operations config parent place items := by
  unfold operations
  rw [config.maxDistance_withThreshold]
  split
  · rfl
  · rw [traverse_recording_eq hkind]

/-- The error that stops a run, if any does. -/
def stop : Option NeighborError :=
  match store place (.empty config.maxDistance parent) items with
  | .error e => some e
  | .ok g => (g.traverse (recording config) []).failure

theorem stop_eq (hkind : config.kind = .preProcess) (threshold : Nat) :
    stop (config.withThreshold threshold) parent place items =
      stop config parent place items := by
  unfold stop
  rw [config.maxDistance_withThreshold]
  split
  · rfl
  · rw [traverse_recording_eq hkind]

/-- The clusters that the operations of a run lead to. -/
def outcome : ClusterIndex S := after config.cluster (operations config parent place items)

theorem run_eq : run config parent place items =
    (stop config parent place items).elim
      (.ok ((outcome config parent place items).summaries config.minOwners)) .error := by
  unfold run stop outcome operations
  cases store place (.empty config.maxDistance parent) items with
  | error e => rfl
  | ok g =>
    dsimp only
    rw [traversal_eq]
    cases g.traverse (recording config) [] with
    | mk ops journal failure => cases failure <;> rfl

variable {config parent place items}

theorem eq_of_run_eq_ok {summaries : List (ClusterSummary S)}
    (h : run config parent place items = .ok summaries) :
    summaries = (outcome config parent place items).summaries config.minOwners := by
  rw [run_eq] at h
  cases hstop : stop config parent place items with
  | some e =>
    rw [hstop, Option.elim_some] at h
    cases h
  | none =>
    rw [hstop, Option.elim_none, Except.ok.injEq] at h
    exact h.symm

theorem alike_outcome (hkind : config.kind = .preProcess) (threshold : Nat) :
    Alike (outcome config parent place items)
      (outcome (config.withThreshold threshold) parent place items) := by
  have hops := ofRun_operations config parent place items
  let config' := config.withThreshold threshold
  have hcluster : config.cluster.kind = .preProcess := hkind
  have hcluster' : config'.cluster.kind = .preProcess := hkind
  unfold outcome
  rw [operations_eq config parent place items hkind threshold]
  exact ClusterIndex.alike_after hcluster hcluster' hops

end Run

section Exact

variable (config : RunConfig) (parent : Descriptor) (place : ClusterItem Rat → Placement)
  (items : List (ClusterItem Rat × Bool))

/-- What the cluster behind a handle is made of at the end of a run. -/
def supplied (c : ClusterId) : Supply Rat :=
  supply config.cluster (operations config parent place items) c

/-- No two coordinates of a cluster are close to each other without being equal. -/
def IsSpread : Prop :=
  ∀ c ∈ (outcome config parent place items).clusters,
    Apart (supplied config parent place items c).coords

instance : Decidable (IsSpread config parent place items) :=
  inferInstanceAs (Decidable (∀ c ∈ (outcome config parent place items).clusters,
    Apart (supplied config parent place items c).coords))

variable {config parent place items}

/-- Every footprint is the hull of what its cluster is made of, whatever the threshold. -/
theorem footprint_eq_hull (hkind : config.kind = .preProcess)
    (hspread : IsSpread config parent place items) (threshold : Nat) {c : ClusterId}
    (hc : c ∈ (outcome config parent place items).clusters) :
    (outcome (config.withThreshold threshold) parent place items).footprint c =
      (supplied config parent place items c).hull := by
  let config' := config.withThreshold threshold
  have hcluster : config.cluster.kind = .preProcess := hkind
  have hcluster' : config'.cluster.kind = .preProcess := hkind
  have hops := ofRun_operations config parent place items
  have hsame : supply config'.cluster (operations config parent place items) c =
      supplied config parent place items c := ClusterIndex.supply_eq hcluster hcluster' hops c
  have hlive : (outcome config' parent place items).isLive c = true := by
    rw [(alike_outcome hkind threshold).isLive_eq]
    exact ClusterIndex.mem_clusters.mp hc
  obtain ⟨k, hk, hkl⟩ := ClusterIndex.isLive_iff _ |>.mp hlive
  have happart : Apart (supply config'.cluster (operations config parent place items) c).coords := by
    rw [hsame]
    exact hspread c hc
  have hmade : k.MadeOf (supply config'.cluster (operations config parent place items) c) := by
    refine ClusterIndex.supplied_after hcluster' hops happart k ?_ hkl
    rw [← operations_eq config parent place items hkind threshold]
    exact hk
  rw [ClusterIndex.footprint, hk, Option.bind_some, hmade.footprint_eq happart, hsame]

/-- In a run without merges the threshold shows in nothing but the mark of compressed clusters. Every
geometry is the convex hull of what its cluster is made of, and if that is no point at all then it
is the geometry that the cluster began with. -/
theorem compression_is_invisible (config : RunConfig) (hkind : config.kind = .preProcess)
    (parent : Descriptor) (place : ClusterItem Rat → Placement)
    (items : List (ClusterItem Rat × Bool)) (hspread : IsSpread config parent place items)
    (threshold : Nat) :
    (run (config.withThreshold threshold) parent place items).map
        (List.map ClusterSummary.unmarked) =
      (run config parent place items).map (List.map ClusterSummary.unmarked) ∧
    ∀ summaries,
      run (config.withThreshold threshold) parent place items = .ok summaries →
      ∀ s ∈ summaries, ∃ c, (outcome config parent place items).representative c = some s.id ∧
        s.geometry = (supplied config parent place items c).hull ∧
        (((supplied config parent place items c).coords = [] ∧
            s.geometry = (supplied config parent place items c).origin) ∨
          ∃ g, s.geometry = some g ∧ g.IsHull (supplied config parent place items c).coords ∧
            ∀ p ∈ (supplied config parent place items c).coords, g.covers p = true) := by
  let config' := config.withThreshold threshold
  have halike : Alike (outcome config parent place items) (outcome config' parent place items) :=
    alike_outcome hkind threshold
  have hfootprint : ∀ c ∈ (outcome config parent place items).clusters,
      (outcome config' parent place items).footprint c =
        (outcome config parent place items).footprint c := by
    intro c hc
    have hself := footprint_eq_hull hkind hspread config.compressionThreshold hc
    rw [config.withThreshold_self] at hself
    rw [hself]
    exact footprint_eq_hull hkind hspread threshold hc
  refine ⟨?_, fun summaries hok s hs => ?_⟩
  · rw [run_eq, run_eq, stop_eq config parent place items hkind threshold,
      config.minOwners_withThreshold]
    cases stop config parent place items with
    | some e => rw [Option.elim_some, Option.elim_some]
    | none =>
      rw [Option.elim_none, Option.elim_none]
      exact congrArg Except.ok (halike.summaries_eq hfootprint config.minOwners)
  · rw [eq_of_run_eq_ok hok] at hs
    obtain ⟨c, hc, hsummary⟩ := List.mem_filterMap.mp hs
    obtain ⟨id, hid, rfl⟩ := Option.map_eq_some_iff.mp hsummary
    have hlive : c ∈ (outcome config parent place items).clusters := by
      rw [← halike.clusters_eq]
      exact List.mem_of_mem_filter hc
    have hhull : (outcome config' parent place items).footprint c =
        (supplied config parent place items c).hull := footprint_eq_hull hkind hspread threshold hlive
    refine ⟨c, ?_, hhull, ?_⟩
    · rw [← hid, ClusterIndex.representative, ClusterIndex.representative, halike.members_eq]
    · show (_ ∧ (outcome config' parent place items).footprint c = _) ∨
        ∃ g, (outcome config' parent place items).footprint c = some g ∧ _
      rw [hhull]
      refine (hull_cases (hspread c hlive)).imp_right fun hsome => ?_
      obtain ⟨g, hg, hshape⟩ := hsome
      exact ⟨g, hg, hshape, fun p hp => hshape.covers hp⟩

/-- The middle of a square and its corners. -/
def squareWithMiddle : List (ClusterItem Rat × Bool) :=
  [(.ofPoint ⟨[0]⟩ ⟨1, 1⟩, true), (.ofPoint ⟨[1]⟩ ⟨0, 0⟩, true), (.ofPoint ⟨[2]⟩ ⟨2, 0⟩, true),
    (.ofPoint ⟨[3]⟩ ⟨2, 2⟩, true), (.ofPoint ⟨[4]⟩ ⟨0, 2⟩, true)]

/-- With a threshold of one the middle folds the corners as they come, and with the default it keeps
them as they are; but for the mark the summaries are the same. -/
theorem folded_square_is_the_same :
    let config : RunConfig := ⟨1.5, 5, defaultCompressionThreshold, .preProcess, .euclidean⟩
    let summaries (config : RunConfig) := run config ⟨⟨[]⟩, true⟩ oneCell squareWithMiddle
    ((summaries config).toOption.map fun s => s.map ClusterSummary.compressed) = some [false] ∧
    ((summaries (config.withThreshold 1)).toOption.map fun s => s.map ClusterSummary.compressed) =
      some [true] ∧
    (summaries (config.withThreshold 1)).map (List.map ClusterSummary.unmarked) =
      (summaries config).map (List.map ClusterSummary.unmarked) := by
  intro config summaries
  have hspread : IsSpread config ⟨⟨[]⟩, true⟩ oneCell squareWithMiddle := by decide +kernel
  exact ⟨by decide +kernel, by decide +kernel,
    (compression_is_invisible config rfl ⟨⟨[]⟩, true⟩ oneCell squareWithMiddle hspread 1).1⟩

end Exact

end Clustering

end DensityClustering
