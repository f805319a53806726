import DensityClustering.Cluster.Run
import DensityClustering.Proofs.Cluster.MergePass
import DensityClustering.Proofs.Cluster.Ownership

/-!
The summaries of the clusters: one for each live cluster that is large enough, with its members, its
count and its first member as the id.
-/

namespace DensityClustering

namespace ClusterIndex

variable {S : Type} [Scalar S] {x : ClusterIndex S} {n : Nat} {c : ClusterId}
  {s : ClusterSummary S}

theorem mem_clusters : c ∈ x.clusters ↔ x.isLive c = true := by
  rw [clusters, List.mem_filter, mem_handles]
  refine ⟨And.right, fun h => ⟨?_, h⟩⟩
  obtain ⟨k, hk, -⟩ := x.isLive_iff.mp h
  exact x.issued_of_cluster? hk

theorem summary_eq_some (h : x.summary c = some s) :
    s.members = x.members c ∧ s.count = x.size c ∧ s.members.head? = some s.id := by
  obtain ⟨id, hid, rfl⟩ := Option.map_eq_some_iff.mp h
  exact ⟨rfl, rfl, hid⟩

theorem exists_cluster_of_mem_summaries (h : s ∈ x.summaries n) :
    ∃ c, x.isLive c = true ∧ n ≤ x.size c ∧ s.members = x.members c ∧ s.count = x.size c ∧
      s.members.head? = some s.id := by
  obtain ⟨c, hc, hs⟩ := List.mem_filterMap.mp h
  rw [List.mem_filter, mem_clusters, decide_eq_true_eq] at hc
  exact ⟨c, hc.1, hc.2, summary_eq_some hs⟩

theorem exists_summary_of_isLive (hown : Ownership x) (hlive : x.isLive c = true)
    (hn : n ≤ x.size c) : ∃ s ∈ x.summaries n, s.members = x.members c := by
  obtain ⟨k, hk, -⟩ := x.isLive_iff.mp hlive
  have hmem := x.members_of_cluster? hk
  obtain ⟨id, hid⟩ : ∃ id, x.representative c = some id := by
    unfold representative
    rw [hmem, ← Option.isSome_iff_exists, List.isSome_head?]
    simpa using hown.nonempty c k hk
  refine ⟨⟨id, x.members c, x.size c, x.footprint c, x.isCompressed c⟩, ?_, rfl⟩
  refine List.mem_filterMap.mpr ⟨c, List.mem_filter.mpr ⟨mem_clusters.mpr hlive, ?_⟩, ?_⟩
  · rw [decide_eq_true_eq]
    exact hn
  · rw [summary, hid, Option.map_some]

/-- Live clusters own their members, so that no two share one. -/
theorem eq_of_mem_members (hown : Ownership x) {d : ClusterId} (hc : x.isLive c = true)
    (hd : x.isLive d = true) {m : ItemId} (hmc : m ∈ x.members c) (hmd : m ∈ x.members d) :
    c = d := by
  obtain ⟨k, hk, hkl⟩ := x.isLive_iff.mp hc
  obtain ⟨a, ha, hal⟩ := x.isLive_iff.mp hd
  rw [x.members_of_cluster? hk] at hmc
  rw [x.members_of_cluster? ha] at hmd
  have h₁ := hown.owner_of_live hk hkl m hmc
  rw [hown.owner_of_live ha hal m hmd, Option.some.injEq] at h₁
  exact h₁.symm

theorem summaries_disjoint (hown : Ownership x) :
    (x.summaries n).Pairwise fun s t => ∀ m ∈ s.members, m ∉ t.members := by
  have hnodup : (x.clusters.filter fun c => decide (n ≤ x.size c)).Nodup :=
    (x.handles_nodup.filter _).filter _
  unfold summaries
  rw [List.pairwise_filterMap]
  refine hnodup.imp_of_mem fun {c d} hc hd hne s hs t ht m hms hmt => hne ?_
  rw [List.mem_filter, mem_clusters] at hc hd
  rw [(summary_eq_some hs).1] at hms
  rw [(summary_eq_some ht).1] at hmt
  exact eq_of_mem_members hown hc.1 hd.1 hms hmt

/-- No id is a member twice, be it of one summary or of two. -/
theorem nodup_flatMap_members (hown : Ownership x) :
    ((x.summaries n).flatMap ClusterSummary.members).Nodup := by
  rw [List.nodup_flatMap]
  refine ⟨fun s hs => ?_, (summaries_disjoint hown).imp fun {s t} hdis m hms hmt =>
    hdis m hms hmt⟩
  obtain ⟨c, hlive, -, hmem, -⟩ := exists_cluster_of_mem_summaries hs
  obtain ⟨k, hk, -⟩ := x.isLive_iff.mp hlive
  rw [hmem, x.members_of_cluster? hk]
  exact hown.nodup c k hk

end ClusterIndex

end DensityClustering
