import Mathlib.Data.List.Dedup
import DensityClustering.Proofs.Cluster.Ledger
import DensityClustering.Proofs.Run.Summaries
import DensityClustering.Proofs.Run.Warrant

/-!
How often a run counts an id. The count of a summary is the length of its cluster's account, which
lists only ids close to a member. A link that a final pass pruned is counted again when another
member of the cluster meets the same id, so that a count can exceed the number of ids close by.
-/

namespace DensityClustering

open ClusterIndex (Operation after book Booked Ownership)

namespace Clustering

variable {S : Type} [Scalar S]

/-- The stored ids that are members of a summary or close to one, seen from either of the two. -/
def nearby (config : RunConfig) (place : ClusterItem S → Placement)
    (items : List (ClusterItem S × Bool)) (s : ClusterSummary S) : List ItemId :=
  (items.filter fun i => s.members.contains i.1.id || items.any fun m =>
    s.members.contains m.1.id &&
      (isClose config place m.1 i.1 || isClose config place i.1 m.1)).map fun i => i.1.id

/-- The ids that the cluster of a summary counted in a run. -/
def countedIn (config : RunConfig) (parent : Descriptor) (place : ClusterItem S → Placement)
    (items : List (ClusterItem S × Bool)) (s : ClusterSummary S) : List ItemId :=
  let ops := operations config parent place items
  match (after config.cluster ops).clusterOf s.id with
  | some c => (book config.cluster ops c).counted
  | none => []

variable {config : RunConfig} {place : ClusterItem S → Placement}
  {items : List (ClusterItem S × Bool)} {N : ItemId → ItemId → Prop} {ops : List (Operation S)}

/-- Warranted operations on single items keep the ledger. -/
theorem Warranted.booked (h : Warranted config N items ops)
    (hones : ∀ i ∈ items, i.1.count = 1)
    (hcalm : (ClusterIndex.empty config.cluster).calm ops = true) :
    Booked N (after config.cluster ops) (book config.cluster ops) := by
  refine h.induction (I := fun ops => (ClusterIndex.empty config.cluster).calm ops = true →
    Booked N (after config.cluster ops) (book config.cluster ops)) (fun _ c k hk => ?_)
    (fun ops op hops hop hcalm => ?_) hcalm
  · have hnone : (after config.cluster ([] : List (Operation S))).cluster? c = none :=
      ClusterIndex.cluster?_empty config.cluster c
    rw [hnone] at hk
    cases hk
  · obtain ⟨hbefore, hstep⟩ := (ClusterIndex.calm_concat config.cluster ops op).mp hcalm
    have hb := hops hbefore
    rw [ClusterIndex.after_concat, ClusterIndex.book_concat]
    cases op with
    | create id item => exact hb.getOrCreate (hones _ hop.1)
    | link c contact id => exact hb.addLink contact hop hstep
    | finish c => exact hb.finish hstep
    | invalidate c => exact hb.invalidate
    | clear c => exact hop.elim
    | merge into other => exact hop.elim

theorem mem_nearby {s : ClusterSummary S} {id : ItemId} : id ∈ nearby config place items s ↔
    (∃ i ∈ items, i.1.id = id) ∧ (id ∈ s.members ∨ ∃ i ∈ items, i.1.id = id ∧
      ∃ m ∈ items, m.1.id ∈ s.members ∧
        (isClose config place m.1 i.1 = true ∨ isClose config place i.1 m.1 = true)) := by
  unfold nearby
  simp only [List.mem_map, List.mem_filter, Bool.or_eq_true, List.any_eq_true, Bool.and_eq_true,
    List.contains_iff_mem]
  constructor
  · rintro ⟨i, ⟨hi, hmem | ⟨m, hm, hmem, hclose⟩⟩, rfl⟩
    · exact ⟨⟨i, hi, rfl⟩, Or.inl hmem⟩
    · exact ⟨⟨i, hi, rfl⟩, Or.inr ⟨i, hi, rfl, m, hm, hmem, hclose⟩⟩
  · rintro ⟨⟨i, hi, rfl⟩, hmem | ⟨j, hj, hid, m, hm, hmem, hclose⟩⟩
    · exact ⟨i, ⟨hi, Or.inl hmem⟩, rfl⟩
    · exact ⟨j, ⟨hj, Or.inr ⟨m, hm, hmem, hclose⟩⟩, hid⟩

/-- A list whose entries all stand in another one without repetitions is no longer than that one
exactly if it repeats no more entries than it misses. -/
theorem length_le_iff {counted close : List ItemId} (hclose : close.Nodup)
    (hsub : ∀ id ∈ counted, id ∈ close) : counted.length ≤ close.length ↔
      counted.length - counted.dedup.length ≤
        (close.filter fun id => decide (id ∉ counted)).length := by
  -- The ids of `close` that were counted are `counted` without its repetitions.
  have hperm : (close.filter fun id => decide (id ∈ counted)).Perm counted.dedup := by
    rw [List.perm_ext_iff_of_nodup (hclose.filter _) counted.nodup_dedup]
    intro id
    rw [List.mem_filter, decide_eq_true_eq, List.mem_dedup]
    exact ⟨And.right, fun h => ⟨hsub id h, h⟩⟩
  have hsplit := List.length_eq_length_filter_add (l := close) fun id => decide (id ∈ counted)
  have hless := counted.dedup_sublist.length_le
  have hlen := hperm.length_eq
  simp only [decide_not]
  omega

theorem nodup_nearby (hids : (items.map fun i => i.1.id).Nodup) (s : ClusterSummary S) :
    (nearby config place items s).Nodup :=
  hids.sublist (List.filter_sublist.map _)

/-- What a member of a summary touches is nearby. -/
theorem mem_nearby_of_known {journal : List (Event ClusterList)} {s : ClusterSummary S}
    {id : ItemId} (hprimary : ∀ m ∈ s.members, IsPrimary items m)
    (h : Account.Known (Touching config place items journal) s.members id) :
    id ∈ nearby config place items s := by
  rw [mem_nearby]
  -- Touching holds from either side, as `nearby` does.
  rcases h with hid | ⟨m, hm, ⟨-, i, hi, j, hj, him, hjid, hclose⟩ |
    ⟨-, i, hi, j, hj, hiid, hjm, hclose⟩⟩
  · obtain ⟨v, hv, hvid⟩ := hprimary id hid
    exact ⟨⟨(v, true), hv, hvid⟩, Or.inl hid⟩
  · exact ⟨⟨j, hj, hjid⟩, Or.inr ⟨j, hj, hjid, i, hi, him ▸ hm, Or.inl hclose⟩⟩
  · exact ⟨⟨i, hi, hiid⟩, Or.inr ⟨i, hi, hiid, j, hj, hjm ▸ hm, Or.inr hclose⟩⟩

/-- The count of a summary is the number of times its cluster counted an id, and all of these ids
are nearby. So it exceeds the number of ids nearby exactly if the cluster counted more ids again than
it left out. -/
theorem count_le_nearby_iff (config : RunConfig) (hvalid : config.fault? = none)
    (parent : Descriptor) (place : ClusterItem S → Placement)
    (items : List (ClusterItem S × Bool)) (hids : (items.map fun i => i.1.id).Nodup)
    (hones : ∀ i ∈ items, i.1.count = 1) (summaries : List (ClusterSummary S))
    (hrun : run config parent place items = .ok summaries)
    (hcalm : IsCalm config parent place items) :
    ∀ s ∈ summaries,
      let counted := countedIn config parent place items s
      let close := nearby config place items s
      s.count = counted.length ∧ (∀ id ∈ counted, id ∈ close) ∧
        (s.count ≤ close.length ↔ counted.length - counted.dedup.length ≤
          (close.filter fun id => decide (id ∉ counted)).length) := by
  obtain ⟨g, hstore, hst, hmax, hok, rfl⟩ := exists_group_of_run hids hrun
  have hpos := minOwners_pos hvalid
  obtain ⟨hwarranted, hshared⟩ := warranted_traversal hst hids hmax hok
  have hops : operations config parent place items =
      (g.traverse (recording config) []).shared := by
    unfold operations
    rw [hstore]
  unfold IsCalm at hcalm
  unfold countedIn
  rw [hops] at hcalm ⊢
  rw [hshared]
  generalize (g.traverse (recording config) []).shared = ops at hwarranted hcalm
  have hown := Ownership.after config.cluster ops
  have hbooked := hwarranted.booked hones hcalm
  intro s hs
  obtain ⟨c, hlive, -, hmem, hcount, hhead⟩ := ClusterIndex.exists_cluster_of_mem_summaries hs
  obtain ⟨k, hk, hkl⟩ := (ClusterIndex.isLive_iff _).mp hlive
  have hmem' : s.members = k.members := hmem.trans (ClusterIndex.members_of_cluster? _ hk)
  have howner : (after config.cluster ops).clusterOf s.id = some c := by
    refine hown.owner_of_live hk hkl s.id ?_
    rw [← hmem']
    exact List.mem_of_head? hhead
  -- The summary is that of a live cluster, whose account fits.
  have hfits := hbooked c k hk hkl
  have hlen : s.count = (book config.cluster ops c).counted.length := by
    rw [hcount, ClusterIndex.size_of_cluster? _ hk, Cluster.size_eq, hfits.count, Int.toNat_natCast]
  have hsub : ∀ id ∈ (book config.cluster ops c).counted, id ∈ nearby config place items s := by
    intro id hid
    refine mem_nearby_of_known (fun m hm => ?_) (hmem' ▸ hfits.counted id hid)
    rw [hmem] at hm
    exact hwarranted.isPrimary_of_mem hpos c m hm
  simp only [howner]
  refine ⟨hlen, hsub, ?_⟩
  rw [hlen]
  exact length_le_iff (nodup_nearby hids s) hsub

/-- Two points in range of each other count once each. -/
theorem count_le_nearby_on_line : ∃ summaries,
    run RunConfig.default ⟨⟨[]⟩, true⟩ oneCell (onLine [(0, true), (1, true)]) = .ok summaries ∧
    summaries ≠ [] ∧ ∀ s ∈ summaries, s.count ≤
      (nearby RunConfig.default oneCell (onLine [(0, true), (1, true)]) s).length := by
  have hrepeats : (run RunConfig.default ⟨⟨[]⟩, true⟩ oneCell
      (onLine [(0, true), (1, true)])).toOption.any (fun summaries => !summaries.isEmpty &&
        summaries.all fun s =>
          let counted := countedIn RunConfig.default ⟨⟨[]⟩, true⟩ oneCell
            (onLine [(0, true), (1, true)]) s
          decide (counted.length - counted.dedup.length ≤
            ((nearby RunConfig.default oneCell (onLine [(0, true), (1, true)]) s).filter
              fun id => decide (id ∉ counted)).length)) = true := by
    decide +kernel
  have hcalm : IsCalm RunConfig.default ⟨⟨[]⟩, true⟩ oneCell
      (onLine [(0, true), (1, true)]) := by
    unfold IsCalm
    decide +kernel
  cases hrun : run RunConfig.default ⟨⟨[]⟩, true⟩ oneCell (onLine [(0, true), (1, true)]) with
  | error e =>
    rw [hrun] at hrepeats
    cases hrepeats
  | ok summaries =>
    have h := count_le_nearby_iff RunConfig.default (by decide +kernel) ⟨⟨[]⟩, true⟩ oneCell
      (onLine [(0, true), (1, true)]) (by decide) (by decide +kernel) summaries hrun hcalm
    rw [hrun] at hrepeats
    have hall : (!summaries.isEmpty && summaries.all _) = true := hrepeats
    rw [Bool.and_eq_true, List.all_eq_true] at hall
    refine ⟨summaries, rfl, fun he => ?_, fun s hs =>
      (h s hs).2.2.mpr (of_decide_eq_true (hall.2 s hs))⟩
    rw [he] at hall
    exact absurd hall.1 (by decide)

/-- A point between two primaries in range of both is counted for each of them: the cluster counts
four where only three points are, and none was compressed. -/
theorem count_exceeds_nearby_between : ∃ summaries,
    run RunConfig.default ⟨⟨[]⟩, true⟩ oneCell
      (onLine [(0, true), (1, true), (0.5, false)]) = .ok summaries ∧
    (∀ ops ∈ (operations RunConfig.default ⟨⟨[]⟩, true⟩ oneCell
        (onLine [(0, true), (1, true), (0.5, false)])).inits,
      ∀ c ∈ (after RunConfig.default.cluster ops).handles,
        (after RunConfig.default.cluster ops).isCompressed c = false) ∧
    ∃ s ∈ summaries, ¬s.count ≤ (nearby RunConfig.default oneCell
      (onLine [(0, true), (1, true), (0.5, false)]) s).length := by
  have hexceeds : (run RunConfig.default ⟨⟨[]⟩, true⟩ oneCell
      (onLine [(0, true), (1, true), (0.5, false)])).toOption.any (fun summaries =>
        summaries.any fun s => decide (¬s.count ≤ (nearby RunConfig.default oneCell
          (onLine [(0, true), (1, true), (0.5, false)]) s).length)) = true := by
    decide +kernel
  cases hrun : run RunConfig.default ⟨⟨[]⟩, true⟩ oneCell
      (onLine [(0, true), (1, true), (0.5, false)]) with
  | error e =>
    rw [hrun] at hexceeds
    cases hexceeds
  | ok summaries =>
    rw [hrun] at hexceeds
    obtain ⟨s, hs, hcount⟩ := List.any_eq_true.mp hexceeds
    exact ⟨summaries, rfl, by decide +kernel, s, hs, of_decide_eq_true hcount⟩

end Clustering

end DensityClustering
