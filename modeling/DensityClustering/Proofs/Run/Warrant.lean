import DensityClustering.Proofs.Cluster.Chained
import DensityClustering.Proofs.Run.Recording

/-!
What entitles a run to its operations. It creates clusters for primaries, and links a cluster only to
ids that were measured close to one of its members.
-/

namespace DensityClustering

open ClusterIndex (Operation after Chained Ownership)

namespace Clustering

variable {S : Type} [Scalar S]

/-- The distance from the item of `a` to that of `b` was measured, they share a cell, and they are
in range of each other. -/
def MeasuredClose (config : RunConfig) (place : ClusterItem S → Placement)
    (items : List (ClusterItem S × Bool)) (journal : List (Event ClusterList)) (a b : ItemId) :
    Prop :=
  .measured a b ∈ journal ∧ ∃ i ∈ items, ∃ j ∈ items, i.1.id = a ∧ j.1.id = b ∧
    isClose config place i.1 j.1 = true

/-- Two ids were measured close, from either of them. -/
def Touching (config : RunConfig) (place : ClusterItem S → Placement)
    (items : List (ClusterItem S × Bool)) (journal : List (Event ClusterList)) (a b : ItemId) :
    Prop :=
  MeasuredClose config place items journal a b ∨ MeasuredClose config place items journal b a

/-- An operation that a run is entitled to, given which ids touch. -/
def Warrant (N : ItemId → ItemId → Prop) (items : List (ClusterItem S × Bool))
    (x : ClusterIndex S) : Operation S → Prop
  | .create id item => (item, true) ∈ items ∧ item.id = id
  | .link c _ id => ∃ m ∈ x.members c, N m id
  | .finish _ => True
  | .invalidate _ => True
  | .clear _ => False
  | .merge _ _ => False

/-- Operations each of which was warranted when its turn came. -/
def Warranted (config : RunConfig) (N : ItemId → ItemId → Prop)
    (items : List (ClusterItem S × Bool)) (ops : List (Operation S)) : Prop :=
  ∀ pre op, pre ++ [op] <+: ops → Warrant N items (after config.cluster pre) op

variable {config : RunConfig} {place : ClusterItem S → Placement}
  {items : List (ClusterItem S × Bool)} {N N' : ItemId → ItemId → Prop}
  {ops : List (Operation S)} {op : Operation S}

theorem Touching.mono {journal journal' : List (Event ClusterList)} {a b : ItemId}
    (h : Touching config place items journal a b) (hmem : ∀ e ∈ journal, e ∈ journal') :
    Touching config place items journal' a b :=
  h.imp (fun h => ⟨hmem _ h.1, h.2⟩) fun h => ⟨hmem _ h.1, h.2⟩

theorem Warrant.mono {x : ClusterIndex S} (h : Warrant N items x op) (hN : ∀ a b, N a b → N' a b) :
    Warrant N' items x op := by
  cases op with
  | create id item => exact h
  | link c contact id =>
    obtain ⟨m, hm, hid⟩ := h
    exact ⟨m, hm, hN m id hid⟩
  | finish c => exact trivial
  | invalidate c => exact trivial
  | clear c => exact h
  | merge into other => exact h

namespace Warranted

theorem mono (h : Warranted config N items ops) (hN : ∀ a b, N a b → N' a b) :
    Warranted config N' items ops :=
  fun pre op hpre => (h pre op hpre).mono hN

theorem nil : Warranted config N items ([] : List (Operation S)) := by
  intro pre op hpre
  have hlen := hpre.length_le
  simp at hlen

theorem concat_iff : Warranted config N items (ops ++ [op]) ↔
    Warranted config N items ops ∧ Warrant N items (after config.cluster ops) op := by
  constructor
  · intro h
    exact ⟨fun pre o hpre => h pre o (hpre.trans (List.prefix_append ..)),
      h ops op (List.prefix_refl _)⟩
  -- The last operation is `op` itself, every earlier one is one of `ops`.
  · rintro ⟨hops, hop⟩ pre o hpre
    rcases List.prefix_concat_iff.mp hpre with he | hpre
    · obtain ⟨rfl, ho⟩ := List.append_inj' he rfl
      cases ho
      exact hop
    · exact hops pre o hpre

/-- What warranted operations keep holds after all of them. -/
theorem induction {I : List (Operation S) → Prop} (h : Warranted config N items ops)
    (hnil : I [])
    (hstep : ∀ ops op, I ops → Warrant N items (after config.cluster ops) op → I (ops ++ [op])) :
    I ops := by
  induction ops using List.reverseRecOn with
  | nil => exact hnil
  | append_singleton ops op ih =>
    obtain ⟨hops, hop⟩ := concat_iff.mp h
    exact hstep ops op (ih hops) hop

theorem mergeSize_pos (hpos : 0 < config.minOwners) (ops : List (Operation S)) :
    0 < (after config.cluster ops).config.mergeSize := by
  rw [ClusterIndex.config_after]
  exact hpos

/-- Warranted operations keep clusters together. -/
theorem chained (hpos : 0 < config.minOwners) (h : Warranted config N items ops) :
    (after config.cluster ops).Chained N := by
  refine h.induction (I := fun ops => (after config.cluster ops).Chained N)
    (Chained.empty config.cluster) fun ops op hc hop => ?_
  have hown := Ownership.after config.cluster ops
  have hsize := mergeSize_pos hpos ops
  rw [ClusterIndex.after_concat]
  cases op with
  | create id item => exact hc.getOrCreate id item
  | link c contact id => exact hc.addLink hown hsize contact hop
  | finish c => exact hc.finish hown hsize c
  | invalidate c => exact hc.invalidate c
  | clear c => exact hop.elim
  | merge into other => exact hop.elim

/-- Only primaries are members. -/
theorem isPrimary_of_mem (hpos : 0 < config.minOwners) (h : Warranted config N items ops) :
    ∀ c, ∀ m ∈ (after config.cluster ops).members c, IsPrimary items m := by
  refine h.induction
    (I := fun ops => ∀ c, ∀ m ∈ (after config.cluster ops).members c, IsPrimary items m)
    (fun c m hm => ?_) fun ops op hc hop c m hm => ?_
  · have hnone : (after config.cluster ([] : List (Operation S))).members c = [] :=
      ClusterIndex.members_empty config.cluster c
    rw [hnone] at hm
    cases hm
  · rw [ClusterIndex.after_concat] at hm
    -- Members come from members, or from a cluster that was created for a primary.
    rcases ClusterIndex.exists_of_mem_members_apply _ (mergeSize_pos hpos ops) op hm with
      ⟨a, ha⟩ | ⟨item, rfl⟩
    · exact hc a m ha
    · exact ⟨item, hop⟩

end Warranted

/-- The operations of an index are warranted by its journal, and its lists name their center. -/
structure Grounded (config : RunConfig) (place : ClusterItem S → Placement)
    (items : List (ClusterItem S × Bool))
    (index : NeighborIndex (List (Operation S)) ClusterList) : Prop where
  warranted : Warranted config (Touching config place items index.journal) items index.shared
  centers : ∀ id (l : ClusterList), index.slots[id]? = some (.live l) → l.center = id

namespace Grounded

variable {index : NeighborIndex (List (Operation S)) ClusterList}

theorem start : Grounded config place items (.start []) := by
  refine ⟨Warranted.nil, fun id l hl => ?_⟩
  simp [NeighborIndex.start] at hl

theorem note (h : Grounded config place items index) (event : Event ClusterList) :
    Grounded config place items (index.note event) :=
  ⟨h.warranted.mono fun _ _ hab => hab.mono fun _ => List.mem_cons_of_mem _, h.centers⟩

theorem put (h : Grounded config place items index) {id : ItemId} {l : ClusterList}
    (hl : l.center = id) : Grounded config place items (index.put id l) := by
  refine ⟨h.warranted, fun id' l' hl' => ?_⟩
  rw [NeighborIndex.slots_put] at hl'
  split at hl'
  · next he =>
    cases hl'
    rw [he, hl]
  · exact h.centers id' l' hl'

theorem empty (h : Grounded config place items index) (id : ItemId) :
    Grounded config place items (index.empty id) := by
  refine ⟨h.warranted, fun id' l' hl' => ?_⟩
  rw [NeighborIndex.slots_empty] at hl'
  split at hl'
  · cases hl'
  · exact h.centers id' l' hl'

theorem perform (h : Grounded config place items index) (op : Operation S)
    (hop : Warrant (Touching config place items index.journal) items
      (after config.cluster index.shared) op) :
    Grounded config place items (Clustering.perform index op) :=
  ⟨Warranted.concat_iff.mpr ⟨h.warranted, hop⟩, h.centers⟩

theorem init (h : Grounded config place items index) {v : ClusterItem S} (hv : (v, true) ∈ items) :
    Grounded config place items (index.init (recording config).lists v.id v).1 ∧
      ((index.init (recording config).lists v.id v).2 = none ∨
        (index.init (recording config).lists v.id v).2 = some ⟨v.id⟩) ∧
      ∀ e ∈ index.journal, e ∈ (index.init (recording config).lists v.id v).1.journal := by
  cases hslot : index.slots[v.id]? with
  | none =>
    rw [init_of_none v hslot]
    have hcreated := h.perform (.create v.id v) ⟨hv, rfl⟩
    exact ⟨(hcreated.note (.built v.id)).put rfl, Or.inr rfl,
      fun e he => List.mem_cons_of_mem _ he⟩
  | some slot =>
    cases slot with
    | live l =>
      rw [NeighborIndex.init_of_live _ v hslot]
      refine ⟨h, Or.inr ?_, fun _ he => he⟩
      rw [← h.centers v.id l hslot]
    | emptied =>
      rw [NeighborIndex.init_of_emptied _ v hslot]
      exact ⟨h, Or.inl rfl, fun _ he => he⟩

theorem offer (h : Grounded config place items index) {v u : ClusterItem S}
    (hv : (v, true) ∈ items) (profile : DistanceProfile (Contact S))
    (htouch : Touching config place items index.journal v.id u.id) :
    Grounded config place items
        (index.offer (recording config).lists profile v.id v u.id u).1 ∧
      ∀ e ∈ index.journal,
        e ∈ (index.offer (recording config).lists profile v.id v u.id u).1.journal := by
  obtain ⟨hinit, hlist, hjournal⟩ := h.init hv
  cases hi : index.init (recording config).lists v.id v with
  | mk index' list =>
    rw [hi] at hinit hlist hjournal
    -- A list that was handed over takes no more links.
    rcases hlist with hlist | hlist
    · cases hlist
      unfold NeighborIndex.offer
      rw [hi]
      exact ⟨hinit, hjournal⟩
    · cases hlist
      rw [offer_of_init profile v u.id u hi]
      split
      · next c hc =>
        -- The cluster owns the center of the list, which is the member that touches the id.
        have hown := Ownership.after config.cluster index'.shared
        have hlinked := hinit.perform (.link c profile.context u.id)
          ⟨v.id, hown.listed v.id c hc, htouch.mono hjournal⟩
        exact ⟨hlinked.put rfl, hjournal⟩
      · exact ⟨hinit.put rfl, hjournal⟩

theorem add (h : Grounded config place items index) {v u : ClusterItem S} {primary : Bool}
    (hv : (v, true) ∈ items) (hu : (u, primary) ∈ items) (profile : DistanceProfile (Contact S))
    (htouch : Touching config place items index.journal v.id u.id) :
    Grounded config place items
      (index.add (recording config).lists profile v.id v u.id u primary).1 := by
  obtain ⟨hone, hjournal⟩ := h.offer hv profile htouch
  cases primary with
  | false => exact hone
  | true => exact (hone.offer hu profile (htouch.mono hjournal).symm).1

/-- A visit deals with a neighbour. -/
theorem consider {g : Group (ClusterItem S)} (hst : Stored place items g)
    (hids : (items.map fun i => i.1.id).Nodup) (hmax : g.maxDistance = config.maxDistance)
    {v : ClusterItem S} (hv : (v, true) ∈ items) {n : ItemId} (hn : n ∈ g.neighbors v.id)
    {s s' : Scan (List (Operation S)) ClusterList} (hs : Grounded config place items s.walk.lists)
    (h : g.consider (recording config) v.id v n s = (s', none)) :
    Grounded config place items s'.walk.lists := by
  rcases consider_recording_cases h with ⟨rfl, -⟩ | ⟨u, primary, hc, hrest⟩
  · exact hs
  obtain ⟨hu, hun, -⟩ := (hst.candidate_eq_some hids).mp hc
  subst hun
  rcases hrest with ⟨rfl, -⟩ | ⟨profile, hprofile, -, hlists, -⟩
  · exact hs
  -- The measurement is in the journal before the link is offered, and warrants it.
  have hnoted := hs.note (.measured v.id u.id)
  have hclose := hst.isClose_eq hids hmax hv hu hn hprofile
  rw [hlists]
  split
  · next hle =>
    rw [decide_eq_true hle] at hclose
    exact hnoted.add hv hu profile
      (Or.inl ⟨List.mem_cons_self, _, hv, _, hu, rfl, rfl, hclose⟩)
  · exact hnoted

theorem handOver (h : Grounded config place items index) (center : ItemId) :
    Grounded config place items (handOver config center index) := by
  unfold Clustering.handOver
  split
  · exact h.empty center
  · next l _ =>
    refine Grounded.empty (Grounded.note ?_ _) center
    show Grounded config place items
      { index with shared := settlement config l index.shared }
    unfold settlement
    split
    · next c _ =>
      split
      · exact h.perform (.invalidate c) trivial
      · exact h.perform (.finish c) trivial
    · exact h

theorem visit {g : Group (ClusterItem S)} (hst : Stored place items g)
    (hids : (items.map fun i => i.1.id).Nodup) (hmax : g.maxDistance = config.maxDistance)
    {v : ClusterItem S} (hv : (v, true) ∈ items)
    {w w' : Walk (List (Operation S)) ClusterList} {farthest : Option ItemId}
    (hw : Grounded config place items w.lists)
    (h : g.visit (recording config) w v.id = (w', .ok farthest)) :
    Grounded config place items w'.lists := by
  have hinit := hw.init hv
  have hvalue := hst.primary_eq_some.mpr ⟨hv, rfl⟩
  rcases g.visit_cases _ hvalue h with ⟨lists, hi, rfl, -⟩ | ⟨lists, list, s, hi, hscan, hf, -⟩
  · rw [hi] at hinit
    exact hinit.1
  · rw [hi] at hinit
    have hs : Grounded config place items s.walk.lists := by
      refine g.scan_invariant (recording config) (g.neighbors v.id)
        (fun seen n rest t t' hsplit ht hc => ?_) hinit.1 hscan
        (I := fun _ t => Grounded config place items t.walk.lists)
      refine ht.consider hst hids hmax hv ?_ hc
      rw [hsplit]
      exact List.mem_append_right _ List.mem_cons_self
    rw [finish_eq] at hf
    cases hf
    exact hs.handOver v.id

end Grounded

/-- Every successful traversal had a warrant for all it did. -/
theorem warranted_traversal {g : Group (ClusterItem S)} (hst : Stored place items g)
    (hids : (items.map fun i => i.1.id).Nodup) (hmax : g.maxDistance = config.maxDistance)
    (hok : (traversal config g).failure = none) :
    Warranted config (Touching config place items (traversal config g).journal) items
        (g.traverse (recording config) []).shared ∧
      (traversal config g).shared =
        after config.cluster (g.traverse (recording config) []).shared := by
  obtain ⟨w, hw, -, hops, hshared, hjournal⟩ := traversal_invariant hst
    (I := fun w => Grounded config place items w.lists) (fun _ _ => Grounded.start)
    (fun w v after farthest hw hv _ h => hw.visit hst hids hmax hv h) hok
  rw [hops, hjournal]
  exact ⟨hw.warranted.mono fun _ _ hab => hab.mono fun e he => List.mem_reverse.mpr he, hshared⟩

end Clustering

end DensityClustering
