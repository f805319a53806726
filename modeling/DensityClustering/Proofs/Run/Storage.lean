import Mathlib.Data.List.Nodup
import DensityClustering.Proofs.Neighbor.PartitionRelation
import DensityClustering.Proofs.Neighbor.Roaming
import DensityClustering.Cluster.Run

/-!
What a partition group holds once items with distinct ids are stored: the items by id, and as the
neighbours of an id those of the other ids whose items name a common cell.
-/

namespace DensityClustering

open Std (ExtTreeSet)

namespace Clustering

variable {S : Type}

/-- A cell is named for both items. -/
def sharesCell (place : ClusterItem S → Placement) (a b : ClusterItem S) : Bool :=
  (place a).cells.any fun d => (place b).cells.any fun e => d.key == e.key

/-- The items share a cell, and the second one is in range of the first one as a center. -/
def isClose [Scalar S] (config : RunConfig) (place : ClusterItem S → Placement)
    (a b : ClusterItem S) : Bool :=
  sharesCell place a b &&
    match a.profile config.coordDistance b with
    | .ok profile => decide (profile.distance ≤ config.maxDistance)
    | .error _ => false

/-- Some item is a primary of this id. -/
def IsPrimary (items : List (ClusterItem S × Bool)) (id : ItemId) : Prop :=
  ∃ v, (v, true) ∈ items ∧ v.id = id

theorem any_isPrimary {items : List (ClusterItem S × Bool)} {p : ItemId} :
    (items.any fun i => decide (i.1.id = p) && i.2) = true ↔ IsPrimary items p := by
  simp only [List.any_eq_true, Bool.and_eq_true, decide_eq_true_eq, IsPrimary]
  constructor
  · rintro ⟨⟨v, b⟩, hi, hp, rfl⟩
    exact ⟨v, hi, hp⟩
  · rintro ⟨v, hv, hp⟩
    exact ⟨(v, true), hv, hp, rfl⟩

/-- The group holds these items, each under its own id. -/
structure Stored (place : ClusterItem S → Placement) (items : List (ClusterItem S × Bool))
    (g : Group (ClusterItem S)) : Prop where
  value : ∀ primary id v, g.index.stored primary id = some v ↔ (v, primary) ∈ items ∧ v.id = id
  cells : ∀ id key, key ∈ g.index.partitionsOf id ↔
    ∃ i ∈ items, i.1.id = id ∧ ∃ d ∈ (place i.1).cells, d.key = key
  members : ∀ id key, id ∈ g.index.members key ↔
    ∃ i ∈ items, i.1.id = id ∧ ∃ d ∈ (place i.1).cells, d.key = key

variable {place : ClusterItem S → Placement} {items : List (ClusterItem S × Bool)}
  {g g' : Group (ClusterItem S)}

theorem stored_empty (maxDistance : Float) (parent : Descriptor) :
    Stored place [] (.empty maxDistance parent : Group (ClusterItem S)) := by
  refine ⟨fun primary id v => ?_, fun id key => ?_, fun id key => ?_⟩
  · simp [Group.empty, PartitionIndex.empty, PartitionIndex.stored, PartitionIndex.primary,
      PartitionIndex.other]
  · simp [Group.empty, PartitionIndex.empty, PartitionIndex.partitionsOf]
  · simp [Group.empty, PartitionIndex.empty, PartitionIndex.members, Cell.fresh]

/-- What is stored when one more item is. -/
theorem add_eq_ok {item : ClusterItem S} {primary : Bool}
    (h : g.add (intake place) item.id primary item = .ok g') :
    g'.index = g.index.insert item.id primary item (place item).cells ∧
      g'.maxDistance = g.maxDistance ∧ g'.parent = g.parent := by
  unfold Group.add intake at h
  simp only at h
  split at h
  · cases h
  · next cells hp =>
    cases h
    rw [hp]
    exact ⟨rfl, rfl, rfl⟩

theorem stored_append_singleton {item : ClusterItem S} {primary : Bool}
    (h : Stored place items g) (hfresh : ∀ i ∈ items, i.1.id ≠ item.id)
    (hindex : g'.index = g.index.insert item.id primary item (place item).cells) :
    Stored place (items ++ [(item, primary)]) g' := by
  refine ⟨fun primary' id v => ?_, fun id key => ?_, fun id key => ?_⟩
  · rw [hindex, PartitionIndex.stored_insert, List.mem_append, List.mem_singleton, Prod.mk.injEq]
    by_cases hid : id = item.id
    · subst hid
      -- The id is fresh, so no other item is stored under it.
      have hno : ¬((v, primary') ∈ items ∧ v.id = item.id) := fun hv => hfresh _ hv.1 hv.2
      simp only [if_true, or_and_right, hno, false_or]
      by_cases hp : primary' = primary
      · simp only [hp, if_true, Option.some.injEq, and_true, eq_comm (a := item)]
        exact ⟨fun e => ⟨e, e ▸ rfl⟩, And.left⟩
      · simp [hp]
    · rw [if_neg hid, h.value]
      refine and_congr_left fun he => ⟨Or.inl, fun hv => hv.resolve_right fun e => hid ?_⟩
      rw [← he, e.1]
  · rw [hindex, PartitionIndex.mem_partitionsOf_insert, h.cells]
    simp only [List.mem_append, List.mem_singleton, or_and_right, exists_or, exists_eq_left,
      eq_comm (a := id)]
    exact or_comm
  · rw [hindex, PartitionIndex.mem_members_insert, h.members]
    simp only [List.mem_append, List.mem_singleton, or_and_right, exists_or, exists_eq_left,
      eq_comm (a := id)]
    exact or_comm

/-- A group that took all items holds them. -/
theorem stored_store {before rest : List (ClusterItem S × Bool)} (h : Stored place before g)
    (hids : ((before ++ rest).map fun i => i.1.id).Nodup) (hstore : store place g rest = .ok g') :
    Stored place (before ++ rest) g' ∧ g'.maxDistance = g.maxDistance ∧ g'.parent = g.parent := by
  induction rest generalizing before g with
  | nil =>
    cases hstore
    rw [List.append_nil]
    exact ⟨h, rfl, rfl⟩
  | cons i rest ih =>
    obtain ⟨item, primary⟩ := i
    unfold store at hstore
    split at hstore
    · cases hstore
    · next between hadd =>
      obtain ⟨hindex, hmax, hparent⟩ := add_eq_ok hadd
      have hfresh : ∀ i ∈ before, i.1.id ≠ item.id := by
        rw [List.map_append, List.map_cons, List.nodup_append] at hids
        exact fun i hi => hids.2.2 _ (List.mem_map_of_mem hi) _ List.mem_cons_self
      have hone := stored_append_singleton h hfresh hindex
      have hsplit : before ++ (item, primary) :: rest = before ++ [(item, primary)] ++ rest := by
        rw [List.append_assoc, List.singleton_append]
      rw [hsplit] at hids ⊢
      obtain ⟨hst, hm, hp⟩ := ih hone hids hstore
      exact ⟨hst, hm.trans hmax, hp.trans hparent⟩

/-- With distinct ids an id names one item. -/
theorem eq_of_mem_of_id_eq (hids : (items.map fun i => i.1.id).Nodup) {i j : ClusterItem S × Bool}
    (hi : i ∈ items) (hj : j ∈ items) (h : i.1.id = j.1.id) : i = j :=
  List.inj_on_of_nodup_map hids hi hj h

namespace Stored

theorem primary_eq_some (h : Stored place items g) {id : ItemId} {v : ClusterItem S} :
    g.index.primary id = some v ↔ (v, true) ∈ items ∧ v.id = id :=
  h.value true id v

theorem other_eq_some (h : Stored place items g) {id : ItemId} {v : ClusterItem S} :
    g.index.other id = some v ↔ (v, false) ∈ items ∧ v.id = id :=
  h.value false id v

theorem mem_primaryIds (h : Stored place items g) {id : ItemId} :
    id ∈ g.index.primaryIds ↔ IsPrimary items id := by
  rw [PartitionIndex.mem_primaryIds, Option.isSome_iff_exists]
  exact exists_congr fun v => h.primary_eq_some

/-- An id counts as a candidate unless it is a primary that is no longer pending. -/
theorem candidate_eq_some (h : Stored place items g) (hids : (items.map fun i => i.1.id).Nodup)
    {pending : Std.ExtTreeSet ItemId} {id : ItemId} {v : ClusterItem S} {primary : Bool} :
    g.candidate pending id = some (v, primary) ↔
      (v, primary) ∈ items ∧ v.id = id ∧ (primary = true → id ∈ pending) := by
  unfold Group.candidate
  cases hp : g.index.primary id with
  | some u =>
    obtain ⟨hu, huid⟩ := h.primary_eq_some.mp hp
    have hone : ∀ b, (v, b) ∈ items → v.id = id → (v, b) = (u, true) := fun b hv hvid =>
      eq_of_mem_of_id_eq hids hv hu (hvid.trans huid.symm)
    by_cases hpend : id ∈ pending
    · simp only [ExtTreeSet.contains_iff_mem.mpr hpend, if_true, Option.some.injEq, Prod.mk.injEq]
      constructor
      · rintro ⟨rfl, rfl⟩
        exact ⟨hu, huid, fun _ => hpend⟩
      · rintro ⟨hv, hvid, -⟩
        cases hone primary hv hvid
        exact ⟨rfl, rfl⟩
    · have hno : pending.contains id = false := by
        rw [← Bool.not_eq_true]
        exact hpend
      simp only [hno, Bool.false_eq_true, if_false]
      constructor
      · intro e
        cases e
      · rintro ⟨hv, hvid, hin⟩
        cases hone primary hv hvid
        exact absurd (hin rfl) hpend
  | none =>
    have hother : primary = true → ¬((v, primary) ∈ items ∧ v.id = id) := by
      rintro rfl hv
      rw [h.primary_eq_some.mpr hv] at hp
      cases hp
    simp only [Option.map_eq_some_iff, Prod.mk.injEq]
    constructor
    · rintro ⟨u, hu, rfl, rfl⟩
      obtain ⟨hu, huid⟩ := h.other_eq_some.mp hu
      exact ⟨hu, huid, Bool.noConfusion⟩
    · rintro ⟨hv, hvid, -⟩
      cases primary with
      | true => exact absurd ⟨hv, hvid⟩ (hother rfl)
      | false => exact ⟨v, h.other_eq_some.mpr ⟨hv, hvid⟩, rfl, rfl⟩

/-- The neighbours of an item are the other items that share a cell with it. -/
theorem mem_neighbors (h : Stored place items g) (hids : (items.map fun i => i.1.id).Nodup)
    {i j : ClusterItem S × Bool} (hi : i ∈ items) (hj : j ∈ items) :
    j.1.id ∈ g.neighbors i.1.id ↔ j.1.id ≠ i.1.id ∧ sharesCell place i.1 j.1 = true := by
  rw [Group.mem_neighbors]
  refine and_congr_right fun _ => ?_
  simp only [sharesCell, List.any_eq_true, beq_iff_eq]
  constructor
  · rintro ⟨key, hk, hm⟩
    obtain ⟨i', hi', hiid, d, hd, rfl⟩ := (h.cells _ _).mp hk
    obtain ⟨j', hj', hjid, e, he, hed⟩ := (h.members _ _).mp hm
    cases eq_of_mem_of_id_eq hids hi' hi hiid
    cases eq_of_mem_of_id_eq hids hj' hj hjid
    exact ⟨d, hd, e, he, hed.symm⟩
  · rintro ⟨d, hd, e, he, hde⟩
    exact ⟨d.key, (h.cells _ _).mpr ⟨i, hi, rfl, d, hd, rfl⟩,
      (h.members _ _).mpr ⟨j, hj, rfl, e, he, hde.symm⟩⟩

/-- A neighbour is close when its measured distance is in range. -/
theorem isClose_eq [Scalar S] (h : Stored place items g) {config : RunConfig}
    (hids : (items.map fun i => i.1.id).Nodup) (hmax : g.maxDistance = config.maxDistance)
    {i j : ClusterItem S × Bool} (hi : i ∈ items) (hj : j ∈ items)
    (hn : j.1.id ∈ g.neighbors i.1.id) {profile : DistanceProfile (Contact S)}
    (hprofile : i.1.profile config.coordDistance j.1 = .ok profile) :
    isClose config place i.1 j.1 = decide (profile.distance ≤ g.maxDistance) := by
  have hcell := ((h.mem_neighbors hids hi hj).mp hn).2
  rw [isClose, hcell, hprofile, Bool.true_and, hmax]

end Stored

theorem minOwners_pos {config : RunConfig} (h : config.fault? = none) : 0 < config.minOwners := by
  unfold RunConfig.fault? at h
  split at h
  · cases h
  · split at h
    · cases h
    · omega

/-- A run that succeeds stored all items and traversed them without an error. -/
theorem exists_group_of_run [Scalar S] {config : RunConfig} {parent : Descriptor}
    {summaries : List (ClusterSummary S)} (hids : (items.map fun i => i.1.id).Nodup)
    (h : run config parent place items = .ok summaries) :
    ∃ g, store place (.empty config.maxDistance parent) items = .ok g ∧ Stored place items g ∧
      g.maxDistance = config.maxDistance ∧ (traversal config g).failure = none ∧
      summaries = (traversal config g).shared.summaries config.minOwners := by
  unfold run at h
  split at h
  · cases h
  · next g hstore =>
    have hst := stored_store (stored_empty config.maxDistance parent) hids hstore
    refine ⟨g, hstore, hst.1, hst.2.1, ?_⟩
    split at h
    · cases h
    · next heq =>
      cases h
      rw [heq]
      exact ⟨rfl, rfl⟩

/-- A partitioner with a single cell. -/
def oneCell {S : Type} (_ : ClusterItem S) : Placement := ⟨[⟨⟨[0]⟩, true⟩], none⟩

/-- Points on a line, each a primary or not; their ids are numbered. -/
def onLine (points : List (Float × Bool)) : List (ClusterItem Float × Bool) :=
  points.zipIdx.map fun (p, n) => (.ofPoint ⟨[n.toUInt8]⟩ ⟨p.1, 0⟩, p.2)

end Clustering

end DensityClustering
