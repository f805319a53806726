import DensityClustering.Proofs.Cluster.Calm
import DensityClustering.Proofs.Neighbor.SharedState
import DensityClustering.Proofs.Run.Storage

/-!
The operations of a run. Collaborators that only write down what they do to the clusters answer like
those of the run when they read the clusters off their notes, so that every state of a run is one
that operations lead to.
-/

namespace DensityClustering

open ClusterIndex (Operation after)
open Std (ExtTreeSet)

namespace Clustering

variable {S : Type} [Scalar S]

/-- What completing a center does to its cluster. -/
def settlement (config : RunConfig) (l : ClusterList) (ops : List (Operation S)) :
    List (Operation S) :=
  match l.cluster (after config.cluster ops) with
  | some c =>
    if (after config.cluster ops).size c < config.minOwners then ops ++ [.invalidate c]
    else ops ++ [.finish c]
  | none => ops

/-- Collaborators of a run whose shared state is the list of operations performed so far. -/
def recording (config : RunConfig) :
    Collaborators (List (Operation S)) (ClusterItem S) (Contact S) ClusterList where
  lists := {
    build := fun center item ops => (⟨center⟩, ops ++ [.create center item])
    add := fun l profile id _ ops =>
      match l.cluster (after config.cluster ops) with
      | some c => (((after config.cluster ops).addLink c profile.context id).2, l,
          ops ++ [.link c profile.context id])
      | none => (false, l, ops)
    infer := fun l id _ ops => l.infer (after config.cluster ops) id }
  measure a b ops := (a.profile config.coordDistance b, ops)
  complete _ _ l ops := (.ok (), settlement config l ops)

theorem after_settlement (config : RunConfig) (l : ClusterList) (ops : List (Operation S)) :
    after config.cluster (settlement config l ops) =
      settle config.minOwners l (after config.cluster ops) := by
  unfold settlement settle ClusterList.size ClusterList.invalidate ClusterList.finish
    ClusterList.act
  cases l.cluster (after config.cluster ops) with
  | none =>
    simp only [ite_self]
  | some c =>
    by_cases hsize : (after config.cluster ops).size c < config.minOwners
    · simp only [Option.elim_some, hsize, if_true, ClusterIndex.after_concat]
      rfl
    · simp only [Option.elim_some, hsize, if_false, ClusterIndex.after_concat]
      rfl

theorem recording_simulates (config : RunConfig) :
    Simulates (after config.cluster) (recording (S := S) config) (collaborators config) := by
  refine ⟨fun id v ops => ?_, fun l p id v ops => ?_, fun _ _ _ _ => rfl, fun _ _ _ => rfl,
    fun id v l ops => ?_⟩
  · show _ = (_, after config.cluster (ops ++ [.create id v]))
    rw [ClusterIndex.after_concat]
    rfl
  · show (_, _, (l.add (after config.cluster ops) p.context id).1) = _
    unfold recording ClusterList.add
    cases hl : l.cluster (after config.cluster ops) with
    | none => simp only [hl]
    | some c =>
      simp only [hl, ClusterIndex.after_concat]
      rfl
  · show _ = (_, after config.cluster (settlement config l ops))
    rw [after_settlement]
    rfl

/-- The traversal of a run, with its clusters read off the operations. -/
theorem traversal_eq (config : RunConfig) (g : Group (ClusterItem S)) :
    traversal config g = (g.traverse (recording config) []).image (after config.cluster) :=
  (recording_simulates config).traverse g []

/-- The lists after one more operation. -/
def perform (index : NeighborIndex (List (Operation S)) ClusterList) (op : Operation S) :
    NeighborIndex (List (Operation S)) ClusterList :=
  { index with shared := index.shared ++ [op] }

section Lists

variable {config : RunConfig} {index : NeighborIndex (List (Operation S)) ClusterList}
  {id : ItemId} {l : ClusterList}

/-- A new list creates a cluster. -/
theorem init_of_none (v : ClusterItem S) (h : index.slots[id]? = none) :
    index.init (recording config).lists id v =
      (((perform index (.create id v)).note (.built id)).put id ⟨id⟩, some ⟨id⟩) := by
  simp only [NeighborIndex.init, h]
  rfl

/-- Offering an id to a list links the cluster that owns the list's center. -/
theorem offer_of_init {index' : NeighborIndex (List (Operation S)) ClusterList}
    (profile : DistanceProfile (Contact S)) (v : ClusterItem S) (t : ItemId) (u : ClusterItem S)
    (h : index.init (recording config).lists id v = (index', some l)) :
    (index.offer (recording config).lists profile id v t u).1 =
      match (after config.cluster index'.shared).clusterOf l.center with
      | some c => (perform index' (.link c profile.context t)).put id l
      | none => index'.put id l := by
  unfold NeighborIndex.offer
  rw [h]
  cases ho : (after config.cluster index'.shared).clusterOf l.center with
  | none => simp only [recording, ClusterList.cluster, ho]
  | some c =>
    simp only [recording, ClusterList.cluster, ho]
    rfl

theorem infer_ne_remove (neighbor : ItemId) (v : ClusterItem S) :
    index.infer (recording config).lists id neighbor v ≠ .remove := by
  unfold NeighborIndex.infer
  split
  · next l _ =>
    show l.infer (after config.cluster index.shared) neighbor ≠ .remove
    unfold ClusterList.infer ClusterIndex.infer
    split
    · split <;> exact nofun
    · exact nofun
  · exact nofun

/-- A live list skips what its cluster owns or links to. -/
theorem infer_eq_skip {neighbor : ItemId} {v : ClusterItem S} {c : ClusterId}
    (hslot : index.slots[id]? = some (.live l))
    (hc : (after config.cluster index.shared).clusterOf l.center = some c)
    (h : index.infer (recording config).lists id neighbor v = .skip) :
    (after config.cluster index.shared).clusterOf neighbor = some c ∨
      (after config.cluster index.shared).links.contains c neighbor = true := by
  have hinfer : index.infer (recording config).lists id neighbor v =
      (after config.cluster index.shared).infer c neighbor := by
    unfold NeighborIndex.infer
    rw [NeighborIndex.find_eq_some.mpr hslot]
    show l.infer (after config.cluster index.shared) neighbor = _
    unfold ClusterList.infer ClusterList.cluster
    rw [hc]
  rw [hinfer] at h
  exact ClusterIndex.infer_eq_skip_iff.mp h

/-- The operations performed so far stay. -/
theorem prefix_init (id : ItemId) (v : ClusterItem S) :
    index.shared <+: (index.init (recording config).lists id v).1.shared := by
  unfold NeighborIndex.init
  split
  · exact List.prefix_refl _
  · exact List.prefix_refl _
  · exact List.prefix_append ..

theorem prefix_offer (profile : DistanceProfile (Contact S)) (id : ItemId) (v : ClusterItem S)
    (t : ItemId) (u : ClusterItem S) :
    index.shared <+: (index.offer (recording config).lists profile id v t u).1.shared := by
  have hinit : index.shared <+: (index.init (recording config).lists id v).1.shared :=
    prefix_init id v
  cases hi : index.init (recording config).lists id v with
  | mk index' list =>
    rw [hi] at hinit
    cases list with
    | none =>
      unfold NeighborIndex.offer
      rw [hi]
      exact hinit
    | some l =>
      -- A link is performed only when the center owns a cluster.
      rw [offer_of_init profile v t u hi]
      split
      · exact hinit.trans (List.prefix_append ..)
      · exact hinit

theorem prefix_add (profile : DistanceProfile (Contact S)) (id : ItemId) (v : ClusterItem S)
    (t : ItemId) (u : ClusterItem S) (primary : Bool) :
    index.shared <+: (index.add (recording config).lists profile id v t u primary).1.shared := by
  cases primary with
  | false => exact prefix_offer profile id v t u
  | true => exact (prefix_offer profile id v t u).trans (prefix_offer profile t u id v)

end Lists

section Visits

variable {config : RunConfig} {g : Group (ClusterItem S)} {center : ItemId} {v : ClusterItem S}

/-- A neighbour is left out, skipped, or measured and offered to the lists when in range. -/
theorem consider_recording_cases {n : ItemId} {s s' : Scan (List (Operation S)) ClusterList}
    (h : g.consider (recording config) center v n s = (s', none)) :
    (s' = s ∧ g.candidate s.walk.pending n = none) ∨
    ∃ u primary, g.candidate s.walk.pending n = some (u, primary) ∧
      ((s' = s ∧ s.walk.lists.infer (recording config).lists center n u = .skip) ∨
      ∃ profile, v.profile config.coordDistance u = .ok profile ∧
        s'.walk.pending = s.walk.pending ∧
        s'.walk.lists =
          (if profile.distance ≤ g.maxDistance then
            ((s.walk.lists.note (.measured center n)).add (recording config).lists profile center v
              n u primary).1
          else s.walk.lists.note (.measured center n)) ∧
        (s'.farthest = s.farthest ∨ (s'.farthest = some n ∧ n ∈ s.walk.pending))) := by
  rcases g.consider_cases _ h with hnone | ⟨u, primary, hcand, hrest⟩
  · exact Or.inl hnone
  refine Or.inr ⟨u, primary, hcand, ?_⟩
  rcases hrest with hskip | ⟨-, hremove⟩ | ⟨profile, shared, -, hm, hpending, hlists, hfarthest⟩
  · exact Or.inl hskip
  · exact absurd hremove (infer_ne_remove n u)
  · -- Measuring changes nothing that the lists share.
    have hshared : s.walk.lists.shared = shared := congrArg Prod.snd hm
    rw [← hshared] at hlists
    refine Or.inr ⟨profile, congrArg Prod.fst hm, hpending, hlists, ?_⟩
    rcases hfarthest with ⟨-, hmem, -, hn⟩ | ⟨-, -, hsame⟩
    · exact Or.inr ⟨hn, hmem⟩
    · exact Or.inl hsame

/-- Dealing with a neighbour drops none from the traversal. -/
theorem consider_pending {n : ItemId} {s s' : Scan (List (Operation S)) ClusterList}
    (h : g.consider (recording config) center v n s = (s', none)) :
    s'.walk.pending = s.walk.pending ∧
      (s'.farthest = s.farthest ∨ ∃ id ∈ s.walk.pending, s'.farthest = some id) := by
  rcases consider_recording_cases h with
    ⟨rfl, -⟩ | ⟨u, primary, -, ⟨rfl, -⟩ | ⟨profile, -, hpending, -, hfarthest⟩⟩
  · exact ⟨rfl, Or.inl rfl⟩
  · exact ⟨rfl, Or.inl rfl⟩
  · exact ⟨hpending, hfarthest.imp_right fun hf => ⟨n, hf.2, hf.1⟩⟩

theorem scan_pending {neighbors : List ItemId} {s s' : Scan (List (Operation S)) ClusterList}
    (hfar : ∀ id, s.farthest = some id → id ∈ s.walk.pending)
    (h : g.scan (recording config) center v neighbors s = (s', none)) :
    s'.walk.pending = s.walk.pending ∧ ∀ id, s'.farthest = some id → id ∈ s.walk.pending := by
  refine g.scan_invariant (recording config) neighbors (fun seen n rest t t' _ ht hc => ?_)
    ⟨rfl, hfar⟩ h (I := fun _ t => t.walk.pending = s.walk.pending ∧
      ∀ id, t.farthest = some id → id ∈ s.walk.pending)
  obtain ⟨hpending, hfarthest⟩ := consider_pending hc
  refine ⟨hpending.trans ht.1, fun id hid => ?_⟩
  -- The farthest primary so far waited when it was met, and nothing was dropped since.
  rcases hfarthest with he | ⟨id', hmem, he⟩
  · exact ht.2 id (he ▸ hid)
  · rw [he, Option.some.injEq] at hid
    rw [← hid, ← ht.1]
    exact hmem

/-- The lists once a center was handed over: its cluster is settled, and its list gone. -/
def handOver (config : RunConfig) (center : ItemId)
    (index : NeighborIndex (List (Operation S)) ClusterList) :
    NeighborIndex (List (Operation S)) ClusterList :=
  match index.find center with
  | none => index.empty center
  | some l =>
    let settled := { index with shared := settlement config l index.shared }
    (settled.note (.completed center l)).empty center

theorem prefix_handOver {index : NeighborIndex (List (Operation S)) ClusterList}
    (center : ItemId) : index.shared <+: (handOver config center index).shared := by
  unfold handOver
  split
  · exact List.prefix_refl _
  · next l _ =>
    show index.shared <+: settlement config l index.shared
    unfold settlement
    split
    · split <;> exact List.prefix_append ..
    · exact List.prefix_refl _

theorem finish_eq (w : Walk (List (Operation S)) ClusterList) :
    Group.finish (recording config) center v w =
      ({ w with lists := handOver config center w.lists }, none) := by
  unfold Group.finish handOver
  cases w.lists.find center with
  | none => rfl
  | some l => rfl

theorem visit_pending {w w' : Walk (List (Operation S)) ClusterList} {farthest : Option ItemId}
    (hvalue : g.index.primary center = some v)
    (h : g.visit (recording config) w center = (w', .ok farthest)) :
    w'.pending = w.pending.erase center ∧ ∀ id, farthest = some id → id ∈ w'.pending := by
  rcases g.visit_cases _ hvalue h with ⟨lists, -, rfl, rfl⟩ | ⟨lists, list, s, -, hscan, hf, rfl⟩
  · exact ⟨rfl, fun _ => nofun⟩
  · have hs := scan_pending (fun id hid => by cases hid) hscan
    have hend : w'.pending = s.walk.pending := by
      have hp := Group.finish_pending (recording config) center v s.walk
      rw [hf] at hp
      exact hp
    rw [hend, hs.1]
    exact ⟨rfl, hs.2⟩

/-- The operations performed so far stay when a neighbour is dealt with. -/
theorem prefix_consider {n : ItemId} {s s' : Scan (List (Operation S)) ClusterList}
    (h : g.consider (recording config) center v n s = (s', none)) :
    s.walk.lists.shared <+: s'.walk.lists.shared := by
  rcases consider_recording_cases h with
    ⟨rfl, -⟩ | ⟨u, primary, -, ⟨rfl, -⟩ | ⟨profile, -, -, hlists, -⟩⟩
  · exact List.prefix_refl _
  · exact List.prefix_refl _
  · rw [hlists]
    split
    · have hadd : (s.walk.lists.note (.measured center n)).shared <+:
          ((s.walk.lists.note (.measured center n)).add (recording config).lists
            profile center v n u primary).1.shared := prefix_add profile center v n u primary
      exact hadd
    · exact List.prefix_refl _

theorem prefix_visit {w w' : Walk (List (Operation S)) ClusterList} {farthest : Option ItemId}
    (hvalue : g.index.primary center = some v)
    (h : g.visit (recording config) w center = (w', .ok farthest)) :
    w.lists.shared <+: w'.lists.shared := by
  have hinit : w.lists.shared <+: (w.lists.init (recording config).lists center v).1.shared :=
    prefix_init center v
  rcases g.visit_cases _ hvalue h with ⟨lists, hi, rfl, -⟩ | ⟨lists, list, s, hi, hscan, hf, -⟩
  · rw [hi] at hinit
    exact hinit
  · rw [hi] at hinit
    have hs : lists.shared <+: s.walk.lists.shared := g.scan_invariant (recording config) _
      (fun _ _ _ _ _ _ ht hc => ht.trans (prefix_consider hc)) (List.prefix_refl _) hscan
      (I := fun _ t => lists.shared <+: t.walk.lists.shared)
    rw [finish_eq] at hf
    cases hf
    exact (hinit.trans hs).trans (prefix_handOver center)

/-- What holds before the first visit and is kept by every visit of a pending primary holds when a
traversal has succeeded, and no primary is left. -/
theorem traversal_invariant {place : ClusterItem S → Placement}
    {items : List (ClusterItem S × Bool)} (hst : Stored place items g)
    {I : Walk (List (Operation S)) ClusterList → Prop}
    (hstart : ∀ pending : ExtTreeSet ItemId, (∀ id, id ∈ pending ↔ IsPrimary items id) →
      I ⟨.start [], pending⟩)
    (hvisit : ∀ w v after farthest, I w → (v, true) ∈ items → v.id ∈ w.pending →
      g.visit (recording config) w v.id = (after, .ok farthest) → I after)
    (hok : (traversal config g).failure = none) :
    ∃ w, I w ∧ (∀ id, id ∉ w.pending) ∧
      (g.traverse (recording config) []).shared = w.lists.shared ∧
      (traversal config g).shared = after config.cluster w.lists.shared ∧
      (traversal config g).journal = w.lists.journal.reverse := by
  have hpending : ∀ id, id ∈ ExtTreeSet.ofList g.index.primaryIds compare ↔
      IsPrimary items id := by
    intro id
    rw [← hst.mem_primaryIds, ← ExtTreeSet.contains_iff_mem, ExtTreeSet.contains_ofList,
      List.contains_iff_mem]
  rw [traversal_eq] at hok ⊢
  unfold Group.traverse at hok ⊢
  dsimp only [Outcome.image] at hok ⊢
  generalize hroam : g.roam (recording config) _ _ = final at hok ⊢
  obtain ⟨w, failure⟩ := final
  cases failure with
  | some e => cases hok
  | none =>
    -- Beside `I` the walk keeps that only primaries wait, so that `hvisit` applies to every center.
    have hend := g.roam_invariant (recording config)
      (I := fun w => I w ∧ ∀ id ∈ w.pending, IsPrimary items id)
      (fun w center after farthest hw hmem hv => ?_) ?_ ?_ hroam
    · exact ⟨w, hend.1.1, hend.2, rfl, rfl, rfl⟩
    · obtain ⟨v, hvi, rfl⟩ := hw.2 center hmem
      obtain ⟨hp, hfar⟩ := visit_pending (hst.primary_eq_some.mpr ⟨hvi, rfl⟩) hv
      refine ⟨⟨hvisit w v after farthest hw.1 hvi hmem hv, fun id hid => hw.2 id ?_⟩, hfar⟩
      rw [hp] at hid
      exact ExtTreeSet.mem_of_mem_erase hid
    · exact ⟨hstart _ hpending, fun id hid => (hpending id).mp hid⟩
    · intro id hid
      exact ExtTreeSet.contains_iff_mem.mp (Option.filter_eq_some_iff.mp hid).2

end Visits

/-- The operations of a run, in order. -/
def operations (config : RunConfig) (parent : Descriptor) (place : ClusterItem S → Placement)
    (items : List (ClusterItem S × Bool)) : List (Operation S) :=
  match store place (.empty config.maxDistance parent) items with
  | .error _ => []
  | .ok g => (g.traverse (recording config) []).shared

/-- No two compressed clusters are joined in a run, and all counts fit in their 64 bits. -/
def IsCalm (config : RunConfig) (parent : Descriptor) (place : ClusterItem S → Placement)
    (items : List (ClusterItem S × Bool)) : Prop :=
  (ClusterIndex.empty config.cluster).calm (operations config parent place items) = true

/-- A run in which no cluster is compressed is calm as long as its counts fit. -/
theorem isCalm_of_isCompressed_eq_false {config : RunConfig} {parent : Descriptor}
    {place : ClusterItem S → Placement} {items : List (ClusterItem S × Bool)}
    (h : ∀ ops, ops <+: operations config parent place items →
      ∀ c, (after config.cluster ops).isCompressed c = false)
    (hfits : ∀ ops op, ops ++ [op] <+: operations config parent place items →
      (after config.cluster ops).fits op = true) :
    IsCalm config parent place items :=
  ClusterIndex.calm_of_isCompressed_eq_false config.cluster _ h hfits

end Clustering

end DensityClustering
