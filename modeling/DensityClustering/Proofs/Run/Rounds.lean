import DensityClustering.Proofs.Run.Visiting

/-!
From visit to visit. Between two visits the clusters agree with the contacts of all visits made so
far, so that at the end they agree with the contacts of the whole run.
-/

namespace DensityClustering

open ClusterIndex (Operation after Accord Ownership)
open Std (ExtTreeSet)

namespace Clustering

namespace Setting

variable {S : Type} [Scalar S] (e : Setting S)

/-- A stage between two visits. -/
def between (order : List ItemId) (pending : ExtTreeSet ItemId) : Stage :=
  ⟨fun id => id ∈ order, fun id => id ∈ pending, none⟩

/-- A walk that visited `order` and is not in the middle of a visit. -/
structure Between (order : List ItemId) (w : Walk (List (Operation S)) ClusterList) : Prop where
  primary : ∀ id, IsPrimary e.items id ↔ id ∈ order ∨ id ∈ w.pending
  waiting : ∀ id ∈ w.pending, id ∉ order
  nodup : order.Nodup
  lists : e.Open order (fun id => id ∈ w.pending) w.lists
  accord : Accord e.survey (e.clusters w.lists.shared) (contact e.config e.place e.items order)
    (between order w.pending)
  unbuilt : ∀ id ∈ w.pending, w.lists.slots[id]? = none →
    ∀ t, contact e.config e.place e.items order id t = false

variable {e} {order : List ItemId} {center : ItemId} {pending : ExtTreeSet ItemId}
  {index : NeighborIndex (List (Operation S)) ClusterList} {v : ClusterItem S}

theorem Open.mono {active active' : ItemId → Prop} (h : e.Open order active index)
    (hless : ∀ id, active' id → active id) : e.Open order active' index :=
  ⟨h.journal, h.emptied, h.live, fun id hid => h.owned id (hless id hid)⟩

theorem Between.start (pending : ExtTreeSet ItemId)
    (hpending : ∀ id, id ∈ pending ↔ IsPrimary e.items id) :
    e.Between [] ⟨.start [], pending⟩ := by
  have hslots : ∀ id : ItemId, (NeighborIndex.start [] :
      NeighborIndex (List (Operation S)) ClusterList).slots[id]? = none := fun id => by
    simp [NeighborIndex.start]
  refine ⟨fun id => ?_, fun id _ => List.not_mem_nil, List.nodup_nil, ⟨rfl, fun id => ?_,
    fun id l hl => ?_, fun id _ => ?_⟩, ?_, fun id _ _ t => ?_⟩
  · rw [hpending]
    simp
  · rw [hslots]
    simp
  · rw [hslots] at hl
    cases hl
  · rw [hslots]
    exact iff_of_true rfl (ClusterIndex.clusterOf_empty e.config.cluster id)
  · exact Accord.empty e.survey e.config.cluster e.merging rfl fun _ => List.not_mem_nil
  · exact not_contact_of_not_mem List.not_mem_nil List.not_mem_nil

/-- The next center gets a list. -/
theorem Between.enter {w : Walk (List (Operation S)) ClusterList} (h : e.Between order w)
    (hv : (v, true) ∈ e.items) (hin : v.id ∈ w.pending) :
    ∃ index, w.lists.init (recording e.config).lists v.id v = (index, some ⟨v.id⟩) ∧
      e.Agenda order v.id (w.pending.erase v.id) ∧
      e.Midway order v.id (w.pending.erase v.id) [] index := by
  have hnot := h.waiting v.id hin
  have herase : ∀ id, id ∈ w.pending.erase v.id ↔ id ≠ v.id ∧ id ∈ w.pending := fun id => by
    rw [ExtTreeSet.mem_erase, ne_eq, Std.LawfulEqCmp.compare_eq_iff_eq, eq_comm]
  obtain ⟨index, c, hinit, hopen, haccord, -, hopened, hslots⟩ :=
    h.lists.exists_init h.accord hv hin hnot hnot nofun (h.unbuilt v.id hin)
  refine ⟨index, hinit, Agenda.enter h.primary h.waiting hin, ?_, hopened, _,
    haccord.turn (fun t ht => ((herase t).mp ht).2) hin ?_, fun id hid hslot => ?_, fun p q => ?_⟩
  · refine hopen.mono fun id hid => ?_
    rcases hid with hid | rfl
    · exact ((herase id).mp hid).2
    · exact hin
  · exact fun p hp => not_contact_of_not_mem (h.waiting p hp) hnot
  · rw [herase] at hid
    rw [hslots id hid.1] at hslot
    exact h.unbuilt id hid.2 hslot
  · simp [InContact]

/-- The neighbours of the center are all it can be in contact with. -/
theorem inContact_neighbors (ha : e.Agenda order center pending) (hv : (v, true) ∈ e.items)
    (hvid : v.id = center) {p q : ItemId} :
    e.InContact order center pending (e.group.neighbors center) p q ↔
      contact e.config e.place e.items (order ++ [center]) p q = true := by
  have hneighbor : ∀ id, id ≠ center → near e.config e.place e.items center id = true →
      id ∈ e.group.neighbors center := by
    intro id hne hnear
    subst hvid
    obtain ⟨i, hi, j, hj, hid, rfl, hclose⟩ := near_eq_true.mp hnear
    have he := eq_of_mem_of_id_eq e.distinct hi hv hid
    subst he
    unfold isClose at hclose
    rw [Bool.and_eq_true] at hclose
    exact (e.stored.mem_neighbors e.distinct hi hj).mpr ⟨hne, hclose.1⟩
  have hcand : ∀ id, near e.config e.place e.items center id = true → id ≠ center → id ∉ order →
      e.Candidate pending id := by
    intro id hnear hne hnot
    obtain ⟨i, hi, ⟨u, b⟩, hj, -, rfl, -⟩ := near_eq_true.mp hnear
    refine ⟨(u, b), hj, rfl, fun hb => ?_⟩
    subst hb
    exact (((ha.primary _).mp ⟨u, hj, rfl⟩).resolve_left hnot).resolve_left hne
  rw [contact_concat ha.fresh ⟨v, hv, hvid⟩, InContact]
  refine or_congr_right (or_congr ?_ ?_)
  · constructor
    · rintro ⟨rfl, hq, hc, hnear⟩
      exact ⟨rfl, ((e.group.mem_neighbors).mp hq).1, ha.not_mem_order hc, hnear⟩
    · rintro ⟨rfl, hne, hnot, hnear⟩
      exact ⟨rfl, hneighbor q hne hnear, hcand q hnear hne hnot, hnear⟩
  · constructor
    · rintro ⟨rfl, hp, hpend, hnear⟩
      exact ⟨rfl, (ha.waiting p hpend).2, (ha.waiting p hpend).1,
        (ha.primary p).mpr (Or.inr (Or.inr hpend)), hnear⟩
    · rintro ⟨rfl, hne, hnot, hprimary, hnear⟩
      exact ⟨rfl, hneighbor p hne hnear,
        (((ha.primary p).mp hprimary).resolve_left hnot).resolve_left hne, hnear⟩

/-- The contacts of a visit that dealt with all neighbours are those of its place in the order. -/
theorem Midway.accord_contact (h : e.Midway order center pending (e.group.neighbors center) index)
    (ha : e.Agenda order center pending) (hv : (v, true) ∈ e.items) (hvid : v.id = center) :
    Accord e.survey (e.clusters index.shared) (contact e.config e.place e.items (order ++ [center]))
        (during order center pending) ∧
      ∀ id ∈ pending, index.slots[id]? = none →
        ∀ t, contact e.config e.place e.items (order ++ [center]) id t = false := by
  obtain ⟨R, haccord, hunbuilt, hR⟩ := h.accord
  have he : R = contact e.config e.place e.items (order ++ [center]) := by
    funext p q
    rw [Bool.eq_iff_iff, hR, inContact_neighbors ha hv hvid]
  exact he ▸ ⟨haccord, hunbuilt⟩

/-- Settling the center's cluster ends the visit in agreement. -/
theorem Midway.settle (h : e.Midway order center pending (e.group.neighbors center) index)
    (ha : e.Agenda order center pending) (hv : (v, true) ∈ e.items) (hvid : v.id = center)
    (hcalm : e.calm (settlement e.config ⟨center⟩ index.shared)) :
    Accord e.survey (e.clusters (settlement e.config ⟨center⟩ index.shared))
        (contact e.config e.place e.items (order ++ [center]))
        (between (order ++ [center]) pending) ∧
      ∀ id ∈ pending, (e.clusters (settlement e.config ⟨center⟩ index.shared)).clusterOf id = none ↔
        (e.clusters index.shared).clusterOf id = none := by
  obtain ⟨haccord, -⟩ := h.accord_contact ha hv hvid
  obtain ⟨c, hc⟩ := h.exists_owner
  have hstage : between (order ++ [center]) pending =
      ⟨fun q => q ∈ order ∨ q = center, fun q => q ∈ pending, none⟩ := by
    simp only [between, List.mem_append, List.mem_singleton]
  have hsettle : settlement e.config ⟨center⟩ index.shared =
      if (e.clusters index.shared).size c < e.config.minOwners then
        index.shared ++ [.invalidate c]
      else index.shared ++ [.finish c] := by
    unfold clusters at hc
    simp only [settlement, ClusterList.cluster, hc]
    rfl
  rw [hstage]
  rw [hsettle] at hcalm ⊢
  by_cases hsize : (e.clusters index.shared).size c < e.config.minOwners
  · rw [if_pos hsize, e.clusters_concat]
    refine ⟨haccord.invalidate rfl hc hsize, fun id hid => ?_⟩
    rw [ClusterIndex.apply, haccord.clusterOf_invalidate hc hsize,
      if_neg (ha.waiting id hid).2]
  · rw [if_neg hsize] at hcalm ⊢
    rw [e.clusters_concat]
    refine ⟨haccord.finish rfl hc (Nat.le_of_not_lt hsize) (e.calm_concat hcalm).2 ?_,
      fun id _ => haccord.own.clusterOf_finish_eq_none c id⟩
    exact fun p _ hp => contact_symm ⟨v, hv, hvid⟩ hp

/-- The center is handed over. -/
theorem Midway.handOver (h : e.Midway order center pending (e.group.neighbors center) index)
    (ha : e.Agenda order center pending) (hv : (v, true) ∈ e.items) (hvid : v.id = center)
    (hnodup : order.Nodup) (hcalm : e.calm (handOver e.config center index).shared) :
    e.Between (order ++ [center]) ⟨Clustering.handOver e.config center index, pending⟩ := by
  have hover : Clustering.handOver e.config center index =
      (({ index with shared := settlement e.config ⟨center⟩ index.shared } :
        NeighborIndex (List (Operation S)) ClusterList).note
          (.completed center ⟨center⟩)).empty center := by
    unfold Clustering.handOver
    rw [NeighborIndex.find_eq_some.mpr h.opened]
  rw [hover] at hcalm ⊢
  obtain ⟨haccord, howner⟩ := h.settle ha hv hvid hcalm
  have hslots : ∀ id : ItemId, ((({ index with
      shared := settlement e.config ⟨center⟩ index.shared } :
        NeighborIndex (List (Operation S)) ClusterList).note
          (.completed center ⟨center⟩)).empty center).slots[id]? =
      if id = center then some .emptied else index.slots[id]? := fun id =>
    NeighborIndex.slots_empty id
  refine ⟨ha.leave.1, ha.leave.2, ?_, ⟨?_, fun id => ?_, fun id l hl => ?_, fun id hid => ?_⟩,
    haccord, fun id hid hslot => ?_⟩
  · rw [List.nodup_append]
    refine ⟨hnodup, List.nodup_singleton center, fun a ha' b hb hab => ha.fresh ?_⟩
    rwa [← List.mem_singleton.mp hb, ← hab]
  · show center :: visits index.journal = _
    rw [h.lists.journal, List.reverse_append]
    rfl
  · rw [hslots, List.mem_append, List.mem_singleton]
    split
    · next he => simp [he]
    · next hne =>
      rw [h.lists.emptied]
      simp [hne]
  · rw [hslots] at hl
    split at hl
    · cases hl
    · exact h.lists.live id l hl
  · rw [hslots, if_neg (ha.waiting id hid).2, h.lists.owned id (Or.inl hid)]
    exact (howner id hid).symm
  · rw [hslots, if_neg (ha.waiting id hid).2] at hslot
    exact (h.accord_contact ha hv hvid).2 id hid hslot

/-- A visit leads from agreement to agreement. -/
theorem Between.visit {w w' : Walk (List (Operation S)) ClusterList} {farthest : Option ItemId}
    (h : e.Between order w) (hv : (v, true) ∈ e.items) (hin : v.id ∈ w.pending)
    (hvisit : e.group.visit (recording e.config) w v.id = (w', .ok farthest))
    (hcalm : e.calm w'.lists.shared) : e.Between (order ++ [v.id]) w' := by
  have hvalue := e.stored.primary_eq_some.mpr ⟨hv, rfl⟩
  obtain ⟨index, hinit, ha, hmid⟩ := h.enter hv hin
  rcases e.group.visit_cases _ hvalue hvisit with
    ⟨lists, hi, -⟩ | ⟨lists, list, s, hi, hscan, hf, -⟩
  · rw [hinit] at hi
    cases hi
  · rw [hinit] at hi
    cases hi
    rw [finish_eq] at hf
    cases hf
    -- The invariant of the scan is claimed of calm prefixes only, as the run is calm in the end.
    have hmet := e.group.scan_invariant (recording e.config)
      (I := fun seen t => t.walk.pending = w.pending.erase v.id ∧ (e.calm t.walk.lists.shared →
        e.Midway order v.id (w.pending.erase v.id) seen t.walk.lists))
      (e.group.neighbors v.id) (fun seen n rest t t' hsplit ht hc => ?_) ⟨rfl, fun _ => hmid⟩ hscan
    · show e.Between _ ⟨handOver e.config v.id s.walk.lists, s.walk.pending⟩
      rw [hmet.1]
      have hbefore := e.calm_of_prefix (prefix_handOver v.id) hcalm
      exact (hmet.2 hbefore).handOver ha hv rfl h.nodup hcalm
    · have hnodup := e.group.neighbors_nodup v.id
      rw [hsplit, List.nodup_append] at hnodup
      have hnew : n ∉ seen := fun hseen => hnodup.2.2 n hseen n List.mem_cons_self rfl
      have hn : n ∈ e.group.neighbors v.id := by
        rw [hsplit]
        exact List.mem_append_right _ List.mem_cons_self
      refine ⟨(consider_pending hc).1.trans ht.1, fun hcalm' => ?_⟩
      have hbefore := e.calm_of_prefix (prefix_consider hc) hcalm'
      exact (ht.2 hbefore).consider ha hv rfl hn hnew ht.1 hc hcalm'

/-- When a calm traversal has succeeded, all primaries were visited, and the clusters agree with the
contacts of the run. -/
theorem between_traversal (hok : (traversal e.config e.group).failure = none)
    (hcalm : e.calm (e.group.traverse (recording e.config) []).shared) :
    ∃ w, e.Between (visits (traversal e.config e.group).journal) w ∧
      (∀ id, id ∉ w.pending) ∧
      (traversal e.config e.group).shared = e.clusters w.lists.shared := by
  obtain ⟨w, hw, hend, hops, hshared, hjournal⟩ := traversal_invariant e.stored
    (I := fun w => e.calm w.lists.shared → ∃ order, e.Between order w)
    (fun pending hpending _ => ⟨[], Between.start pending hpending⟩)
    (fun w v after farthest hw hv hin hvisit hcalm' => by
      have hvalue := e.stored.primary_eq_some.mpr ⟨hv, rfl⟩
      obtain ⟨order, h⟩ := hw (e.calm_of_prefix (prefix_visit hvalue hvisit) hcalm')
      exact ⟨_, h.visit hv hin hvisit hcalm'⟩) hok
  rw [hops] at hcalm
  obtain ⟨order, h⟩ := hw hcalm
  have horder : visits (traversal e.config e.group).journal = order := by
    rw [hjournal, visits_reverse, h.lists.journal, List.reverse_reverse]
  exact ⟨w, horder ▸ h, hend, hshared⟩

end Setting

end Clustering

end DensityClustering
