import DensityClustering.Proofs.Run.Summaries
import DensityClustering.Proofs.Run.Warrant

/-!
What every summary of a run is made of: primaries, each in one summary only, that hold together by
measured distances within range.
-/

namespace DensityClustering

open ClusterIndex (Operation after Chained Ownership)
open Relation (ReflTransGen)

namespace Clustering

variable {S : Type} [Scalar S]

/-- What a run did, from the first event on. -/
def journal (config : RunConfig) (parent : Descriptor) (place : ClusterItem S → Placement)
    (items : List (ClusterItem S × Bool)) : List (Event ClusterList) :=
  match store place (.empty config.maxDistance parent) items with
  | .error _ => []
  | .ok g => (traversal config g).journal

variable {config : RunConfig} {place : ClusterItem S → Placement}
  {items : List (ClusterItem S × Bool)}

/-- Chains do not leave a group of ids that no touching ids leave. -/
theorem group_of_chain {N : ItemId → ItemId → Prop} {ids : List ItemId} {group : ItemId → Prop}
    (hgroup : ∀ a b, N a b → (group a ↔ group b)) {a b : ItemId}
    (h : ReflTransGen (Bond N ids) a b) : group a ↔ group b := by
  induction h with
  | refl => exact Iff.rfl
  | tail _ hbond ih =>
    rcases hbond.1 with h | h
    · exact ih.trans (hgroup _ _ h)
    · exact ih.trans (hgroup _ _ h).symm

/-- Summaries have distinct primaries as members, no two share one, and the members of one are
joined by chains of members that touch; so no summary mixes groups that do not touch. -/
theorem summaries_hold_together (config : RunConfig) (hvalid : config.fault? = none)
    (parent : Descriptor) (place : ClusterItem S → Placement)
    (items : List (ClusterItem S × Bool)) (hids : (items.map fun i => i.1.id).Nodup)
    (summaries : List (ClusterSummary S)) (hrun : run config parent place items = .ok summaries) :
    (∀ s ∈ summaries, s.members ≠ [] ∧ s.members.Nodup ∧ s.members.head? = some s.id ∧
      config.minOwners ≤ s.count ∧ (∀ m ∈ s.members, IsPrimary items m) ∧
      ∀ a ∈ s.members, ∀ b ∈ s.members, ReflTransGen
        (Bond (Touching config place items (journal config parent place items)) s.members) a b) ∧
    (summaries.Pairwise fun s t => ∀ m ∈ s.members, m ∉ t.members) ∧
    ∀ group : ItemId → Prop,
      (∀ a b, Touching config place items (journal config parent place items) a b →
        (group a ↔ group b)) →
      ∀ s ∈ summaries, ∀ a ∈ s.members, ∀ b ∈ s.members, (group a ↔ group b) := by
  obtain ⟨g, hstore, hst, hmax, hok, rfl⟩ := exists_group_of_run hids hrun
  have hpos := minOwners_pos hvalid
  have hjournal : journal config parent place items = (traversal config g).journal := by
    unfold journal
    rw [hstore]
  rw [hjournal]
  obtain ⟨hwarranted, hshared⟩ := warranted_traversal hst hids hmax hok
  generalize (g.traverse (recording config) []).shared = ops at hwarranted hshared
  rw [hshared]
  have hown := Ownership.after config.cluster ops
  have hchained := hwarranted.chained hpos
  have hprimaries := hwarranted.isPrimary_of_mem hpos
  have hjoined : ∀ s ∈ (after config.cluster ops).summaries config.minOwners,
      Joined (Touching config place items (traversal config g).journal) s.members := by
    intro s hs
    obtain ⟨c, -, -, hmem, -⟩ := ClusterIndex.exists_cluster_of_mem_summaries hs
    rw [hmem]
    exact hchained.joined c
  refine ⟨fun s hs => ?_, ClusterIndex.summaries_disjoint hown, fun group hgroup s hs a ha b hb =>
    group_of_chain hgroup (hjoined s hs a ha b hb)⟩
  obtain ⟨c, hlive, hsize, hmem, hcount, hhead⟩ :=
    ClusterIndex.exists_cluster_of_mem_summaries hs
  obtain ⟨k, hk, -⟩ := (ClusterIndex.isLive_iff _).mp hlive
  have hk' := ClusterIndex.members_of_cluster? _ hk
  refine ⟨?_, ?_, hhead, hcount ▸ hsize, fun m hm => hprimaries c m (hmem ▸ hm), hjoined s hs⟩
  · rw [hmem, hk']
    exact hown.nonempty c k hk
  · rw [hmem, hk']
    exact hown.nodup c k hk

/-- Two points in range of each other make one summary, which a third one far away does not join. -/
theorem summaries_hold_together_on_line : ∃ summaries,
    run RunConfig.default ⟨⟨[]⟩, true⟩ oneCell (onLine [(0, true), (1, true), (5, true)]) =
      .ok summaries ∧
    summaries.map ClusterSummary.members = [[⟨[0]⟩, ⟨[1]⟩]] ∧
    ∀ s ∈ summaries, s.members.Nodup ∧ s.members.head? = some s.id := by
  have hmembers : ((run RunConfig.default ⟨⟨[]⟩, true⟩ oneCell
      (onLine [(0, true), (1, true), (5, true)])).toOption.map
        fun s => s.map ClusterSummary.members) = some [[⟨[0]⟩, ⟨[1]⟩]] := by
    decide +kernel
  cases hrun : run RunConfig.default ⟨⟨[]⟩, true⟩ oneCell
      (onLine [(0, true), (1, true), (5, true)]) with
  | error e =>
    rw [hrun] at hmembers
    cases hmembers
  | ok summaries =>
    rw [hrun] at hmembers
    have h := summaries_hold_together RunConfig.default (by decide +kernel) ⟨⟨[]⟩, true⟩ oneCell
      (onLine [(0, true), (1, true), (5, true)]) (by decide) summaries hrun
    exact ⟨summaries, rfl, Option.some.inj hmembers,
      fun s hs => ⟨(h.1 s hs).2.1, (h.1 s hs).2.2.1⟩⟩

end Clustering

end DensityClustering
