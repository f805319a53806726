import Mathlib.Logic.Relation
import DensityClustering.Proofs.Run.Contacts
import DensityClustering.Proofs.Run.Recording

/-!
A run step by step. Whatever the kind of the clusters, a run only ever builds a list for a primary
that has none, links the cluster of a live list, or settles a live list and empties it; so what
these three steps keep, every run keeps.
-/

namespace DensityClustering

open ClusterIndex (Operation after Ownership)
open Relation (ReflTransGen)

namespace Clustering

variable {S : Type} [Scalar S]

/-- The lists once one was built for an item, with its cluster. -/
def build (index : NeighborIndex (List (Operation S)) ClusterList) (v : ClusterItem S) :
    NeighborIndex (List (Operation S)) ClusterList :=
  ((perform index (.create v.id v)).note (.built v.id)).put v.id ⟨v.id⟩

/-- The lists once that of an id was settled. -/
def conclude (config : RunConfig) (id : ItemId)
    (index : NeighborIndex (List (Operation S)) ClusterList) :
    NeighborIndex (List (Operation S)) ClusterList :=
  let settled := { index with shared := settlement config ⟨id⟩ index.shared }
  (settled.note (.completed id ⟨id⟩)).empty id

/-- What a run does to its lists at a time. -/
inductive Step (config : RunConfig) (items : List (ClusterItem S × Bool)) :
    NeighborIndex (List (Operation S)) ClusterList →
    NeighborIndex (List (Operation S)) ClusterList → Prop
  | measure {index} (a b : ItemId) : Step config items index (index.note (.measured a b))
  | build {index} {v : ClusterItem S} (primary : (v, true) ∈ items)
      (fresh : index.slots[v.id]? = none) : Step config items index (build index v)
  | link {index} {id : ItemId} {c : ClusterId} (live : index.slots[id]? = some (.live ⟨id⟩))
      (owned : (after config.cluster index.shared).clusterOf id = some c) (contact : Contact S)
      (t : ItemId) : Step config items index (perform index (.link c contact t))
  | conclude {index} {id : ItemId} (live : index.slots[id]? = some (.live ⟨id⟩)) :
      Step config items index (conclude config id index)

/-- The lists that steps lead to from none. -/
def Reachable (config : RunConfig) (items : List (ClusterItem S × Bool))
    (index : NeighborIndex (List (Operation S)) ClusterList) : Prop :=
  ReflTransGen (Step config items) (.start []) index

section Slots

variable {config : RunConfig} {index : NeighborIndex (List (Operation S)) ClusterList}
  {id : ItemId} {v : ClusterItem S}

omit [Scalar S] in
theorem slots_start (id : ItemId) : (NeighborIndex.start [] :
    NeighborIndex (List (Operation S)) ClusterList).slots[id]? = none := by
  simp [NeighborIndex.start]

omit [Scalar S] in
theorem slots_build (id : ItemId) : (build index v).slots[id]? =
    if id = v.id then some (.live ⟨v.id⟩) else index.slots[id]? :=
  NeighborIndex.slots_put id

theorem slots_conclude (center : ItemId) : (conclude config center index).slots[id]? =
    if id = center then some .emptied else index.slots[id]? :=
  NeighborIndex.slots_empty id

/-- Handing over a list that is live settles it. -/
theorem handOver_of_live {center : ItemId} (h : index.slots[center]? = some (.live ⟨center⟩)) :
    handOver config center index = conclude config center index := by
  unfold handOver conclude
  rw [NeighborIndex.find_eq_some.mpr h]

omit [Scalar S] in
/-- Putting a list where it is already. -/
theorem put_of_live {l : ClusterList} (h : index.slots[id]? = some (.live l)) :
    index.put id l = index := by
  have hslots : index.slots.insert id (.live l) = index.slots := by
    apply Std.ExtTreeMap.ext_getElem?
    intro id'
    have hput : (index.put id l).slots[id']? = if id' = id then some (.live l)
        else index.slots[id']? := NeighborIndex.slots_put id'
    refine hput.trans ?_
    split
    · next he => rw [he, h]
    · rfl
  unfold NeighborIndex.put
  rw [hslots]

end Slots

variable {config : RunConfig} {items : List (ClusterItem S × Bool)}
  {index index' : NeighborIndex (List (Operation S)) ClusterList}

theorem settlement_cases (config : RunConfig) (l : ClusterList) (ops : List (Operation S)) :
    (l.cluster (after config.cluster ops) = none ∧ settlement config l ops = ops) ∨
    ∃ c, l.cluster (after config.cluster ops) = some c ∧
      ((after config.cluster ops).size c < config.minOwners ∧
          settlement config l ops = ops ++ [.invalidate c] ∨
        config.minOwners ≤ (after config.cluster ops).size c ∧
          settlement config l ops = ops ++ [.finish c]) := by
  unfold settlement
  cases l.cluster (after config.cluster ops) with
  | none => exact Or.inl ⟨rfl, rfl⟩
  | some c =>
    refine Or.inr ⟨c, rfl, ?_⟩
    by_cases hsize : (after config.cluster ops).size c < config.minOwners
    · exact Or.inl ⟨hsize, if_pos hsize⟩
    · exact Or.inr ⟨Nat.le_of_not_lt hsize, if_neg hsize⟩

namespace Step

theorem prefix_shared (h : Step config items index index') : index.shared <+: index'.shared := by
  cases h with
  | measure a b => exact List.prefix_refl _
  | build primary fresh => exact List.prefix_append ..
  | link live owned contact t => exact List.prefix_append ..
  | @conclude id live =>
    show index.shared <+: settlement config ⟨id⟩ index.shared
    rcases settlement_cases config ⟨id⟩ index.shared with
      ⟨-, he⟩ | ⟨c, -, ⟨-, he⟩ | ⟨-, he⟩⟩
    · exact he.symm ▸ List.prefix_rfl
    · rw [he]
      exact List.prefix_append ..
    · rw [he]
      exact List.prefix_append ..

/-- A list that was emptied stays so. -/
theorem emptied (h : Step config items index index') {id : ItemId}
    (hid : index.slots[id]? = some .emptied) : index'.slots[id]? = some .emptied := by
  cases h with
  | measure a b => exact hid
  | @build v primary fresh =>
    have hne : id ≠ v.id := by
      rintro rfl
      rw [fresh] at hid
      cases hid
    rw [slots_build, if_neg hne]
    exact hid
  | link live owned contact t => exact hid
  | @conclude center live =>
    rw [slots_conclude]
    split
    · rfl
    · exact hid

end Step

/-- The ids that operations create clusters for, in order. -/
def creations (ops : List (Operation S)) : List ItemId :=
  ops.filterMap fun
    | .create id _ => some id
    | _ => none

theorem creations_settlement (config : RunConfig) (l : ClusterList) (ops : List (Operation S)) :
    creations (settlement config l ops) = creations ops := by
  unfold creations
  rcases settlement_cases config l ops with ⟨-, he⟩ | ⟨c, -, ⟨-, he⟩ | ⟨-, he⟩⟩
  · rw [he]
  · rw [he, List.filterMap_append]
    exact List.append_nil _
  · rw [he, List.filterMap_append]
    exact List.append_nil _

/-- What the lists of a run tell: live lists are those of primaries, an id has a list once a cluster
was created for it, which happens once, and the lists that are gone are those of completed
centers. -/
structure Kept (items : List (ClusterItem S × Bool))
    (index : NeighborIndex (List (Operation S)) ClusterList) : Prop where
  live : ∀ id (l : ClusterList), index.slots[id]? = some (.live l) → l = ⟨id⟩
  primary : ∀ id, index.slots[id]? ≠ none → IsPrimary items id
  created : ∀ id, id ∈ creations index.shared ↔ index.slots[id]? ≠ none
  once : (creations index.shared).Nodup
  emptied : ∀ id, index.slots[id]? = some .emptied ↔ id ∈ visits index.journal
  visited : (visits index.journal).Nodup

namespace Kept

omit [Scalar S] in
theorem start : Kept items (.start [] : NeighborIndex (List (Operation S)) ClusterList) := by
  refine ⟨fun id l hl => ?_, fun id hid => ?_, fun id => ?_, List.nodup_nil, fun id => ?_,
    List.nodup_nil⟩
  · rw [slots_start] at hl
    cases hl
  · exact absurd (slots_start id) hid
  · rw [slots_start]
    simp [creations, NeighborIndex.start]
  · rw [slots_start]
    simp [visits, NeighborIndex.start]

omit [Scalar S] in
theorem link (h : Kept items index) (c : ClusterId) (contact : Contact S) (t : ItemId) :
    Kept items (perform index (.link c contact t)) := by
  have hcreations : creations (perform index (.link c contact t)).shared =
      creations index.shared := by
    show creations (index.shared ++ [.link c contact t]) = _
    unfold creations
    rw [List.filterMap_append]
    exact List.append_nil _
  refine ⟨h.live, h.primary, fun id => ?_, ?_, h.emptied, h.visited⟩
  · rw [hcreations]
    exact h.created id
  · rw [hcreations]
    exact h.once

omit [Scalar S] in
theorem build (h : Kept items index) {v : ClusterItem S} (hv : (v, true) ∈ items)
    (hfresh : index.slots[v.id]? = none) : Kept items (Clustering.build index v) := by
  have hcreations : creations (Clustering.build index v).shared =
      creations index.shared ++ [v.id] := List.filterMap_append
  have hnew : v.id ∉ creations index.shared := by
    rw [h.created]
    exact fun hno => hno hfresh
  refine ⟨fun id l hl => ?_, fun id hid => ?_, fun id => ?_, ?_, fun id => ?_, h.visited⟩
  · rw [slots_build] at hl
    split at hl
    · next he =>
      cases hl
      rw [he]
    · exact h.live id l hl
  · rw [slots_build] at hid
    split at hid
    · next he => exact ⟨v, hv, he.symm⟩
    · exact h.primary id hid
  · rw [hcreations, List.mem_append, List.mem_singleton, slots_build, h.created]
    by_cases he : id = v.id
    · simp [he]
    · simp [he]
  · rw [hcreations, List.nodup_append]
    refine ⟨h.once, List.nodup_singleton _, fun a ha b hb hab => hnew ?_⟩
    rwa [← List.mem_singleton.mp hb, ← hab]
  · rw [slots_build]
    show _ ↔ id ∈ visits index.journal
    rw [← h.emptied]
    split
    · next he => simp [he, hfresh]
    · rfl

theorem conclude (h : Kept items index) {center : ItemId}
    (hlive : index.slots[center]? = some (.live ⟨center⟩)) :
    Kept items (Clustering.conclude config center index) := by
  have hcreations : creations (Clustering.conclude config center index).shared =
      creations index.shared := creations_settlement config ⟨center⟩ index.shared
  have hvisits : visits (Clustering.conclude config center index).journal =
      center :: visits index.journal := rfl
  have hlist : index.slots[center]? ≠ none := by
    rw [hlive]
    exact Option.some_ne_none _
  have hnew : center ∉ visits index.journal := by
    rw [← h.emptied, hlive]
    simp
  refine ⟨fun id l hl => ?_, fun id hid => ?_, fun id => ?_, ?_, fun id => ?_, ?_⟩
  · rw [slots_conclude] at hl
    split at hl
    · cases hl
    · exact h.live id l hl
  · rw [slots_conclude] at hid
    split at hid
    · next he => exact h.primary id (he ▸ hlist)
    · exact h.primary id hid
  · rw [hcreations, h.created, slots_conclude]
    split
    · next he => exact iff_of_true (he ▸ hlist) (Option.some_ne_none _)
    · rfl
  · rw [hcreations]
    exact h.once
  · rw [hvisits, slots_conclude, List.mem_cons, ← h.emptied]
    by_cases he : id = center
    · simp [he]
    · simp [he]
  · rw [hvisits]
    exact List.nodup_cons.mpr ⟨hnew, h.visited⟩

theorem step (h : Kept items index) (hstep : Step config items index index') :
    Kept items index' := by
  cases hstep with
  | measure a b => exact ⟨h.live, h.primary, h.created, h.once, h.emptied, h.visited⟩
  | build primary fresh => exact h.build primary fresh
  | link live owned contact t => exact h.link _ contact t
  | conclude live => exact h.conclude live

end Kept

theorem Reachable.kept (h : Reachable config items index) : Kept items index := by
  induction h with
  | refl => exact Kept.start
  | tail _ hstep ih => exact ih.step hstep

/-- Steps that empty no list. -/
structure Advance (config : RunConfig) (items : List (ClusterItem S × Bool))
    (index index' : NeighborIndex (List (Operation S)) ClusterList) : Prop where
  steps : ReflTransGen (Step config items) index index'
  live : ∀ id : ItemId, index.slots[id]? = some (.live ⟨id⟩) →
    index'.slots[id]? = some (.live ⟨id⟩)

namespace Advance

variable {index'' : NeighborIndex (List (Operation S)) ClusterList}

theorem refl (index : NeighborIndex (List (Operation S)) ClusterList) :
    Advance config items index index :=
  ⟨ReflTransGen.refl, fun _ h => h⟩

theorem trans (h : Advance config items index index') (h' : Advance config items index' index'') :
    Advance config items index index'' :=
  ⟨h.steps.trans h'.steps, fun id hid => h'.live id (h.live id hid)⟩

theorem reachable (h : Advance config items index index') (hindex : Reachable config items index) :
    Reachable config items index' :=
  hindex.trans h.steps

theorem measure (a b : ItemId) : Advance config items index (index.note (.measured a b)) :=
  ⟨ReflTransGen.single (.measure a b), fun _ h => h⟩

theorem build {v : ClusterItem S} (hv : (v, true) ∈ items) (hfresh : index.slots[v.id]? = none) :
    Advance config items index (Clustering.build index v) := by
  refine ⟨ReflTransGen.single (.build hv hfresh), fun id hid => ?_⟩
  rw [slots_build]
  split
  · next he => rw [he]
  · exact hid

end Advance

namespace Reachable

variable {v u : ClusterItem S}

/-- The list of a primary is built, is there, or is gone. -/
theorem init_cases (h : Reachable config items index) (v : ClusterItem S) :
    (index.slots[v.id]? = none ∧
      index.init (recording config).lists v.id v = (build index v, some ⟨v.id⟩)) ∨
    (index.slots[v.id]? = some (.live ⟨v.id⟩) ∧
      index.init (recording config).lists v.id v = (index, some ⟨v.id⟩)) ∨
    (index.slots[v.id]? = some .emptied ∧
      index.init (recording config).lists v.id v = (index, none)) := by
  cases hslot : index.slots[v.id]? with
  | none => exact Or.inl ⟨rfl, init_of_none v hslot⟩
  | some slot =>
    cases slot with
    | live l =>
      have hl : l = ⟨v.id⟩ := h.kept.live v.id l hslot
      subst hl
      exact Or.inr (Or.inl ⟨rfl, NeighborIndex.init_of_live _ v hslot⟩)
    | emptied => exact Or.inr (Or.inr ⟨rfl, NeighborIndex.init_of_emptied _ v hslot⟩)

/-- Initializing the list of a primary. -/
theorem init (h : Reachable config items index) (hv : (v, true) ∈ items) :
    Advance config items index (index.init (recording config).lists v.id v).1 ∧
      ∀ l, (index.init (recording config).lists v.id v).2 = some l → l = ⟨v.id⟩ ∧
        (index.init (recording config).lists v.id v).1.slots[v.id]? = some (.live ⟨v.id⟩) := by
  rcases h.init_cases v with ⟨hfresh, he⟩ | ⟨hlive, he⟩ | ⟨-, he⟩
  · rw [he]
    refine ⟨Advance.build hv hfresh, fun l hl => ⟨(Option.some.inj hl).symm, ?_⟩⟩
    rw [slots_build, if_pos rfl]
  · rw [he]
    exact ⟨Advance.refl index, fun l hl => ⟨(Option.some.inj hl).symm, hlive⟩⟩
  · rw [he]
    refine ⟨Advance.refl index, fun l hl => ?_⟩
    cases hl

/-- Offering an id to the list of a primary. -/
theorem offer (h : Reachable config items index) (hv : (v, true) ∈ items)
    (profile : DistanceProfile (Contact S)) (t : ItemId) (w : ClusterItem S) :
    Advance config items index
      (index.offer (recording config).lists profile v.id v t w).1 := by
  obtain ⟨hinit, hlist⟩ := h.init hv
  cases hi : index.init (recording config).lists v.id v with
  | mk opened list =>
    rw [hi] at hinit hlist
    cases list with
    | none =>
      unfold NeighborIndex.offer
      rw [hi]
      exact hinit
    | some l =>
      obtain ⟨rfl, hlive⟩ := hlist l rfl
      have hput : ∀ op, (perform opened op).put v.id ⟨v.id⟩ = perform opened op := fun op =>
        put_of_live hlive
      rw [offer_of_init profile v t w hi]
      refine hinit.trans ?_
      split
      · next c hc =>
        rw [hput]
        exact ⟨ReflTransGen.single (.link hlive hc profile.context t), fun _ hid => hid⟩
      · rw [put_of_live hlive]
        exact Advance.refl opened

theorem add (h : Reachable config items index) (hv : (v, true) ∈ items) {primary : Bool}
    (hu : (u, primary) ∈ items) (profile : DistanceProfile (Contact S)) :
    Advance config items index
      (index.add (recording config).lists profile v.id v u.id u primary).1 := by
  have hfirst := h.offer hv profile u.id u
  cases primary with
  | false => exact hfirst
  | true => exact hfirst.trans ((hfirst.reachable h).offer hu profile v.id v)

variable {place : ClusterItem S → Placement} {g : Group (ClusterItem S)}

/-- A center deals with a neighbour. -/
theorem consider {n : ItemId} {s s' : Scan (List (Operation S)) ClusterList}
    (h : Reachable config items s.walk.lists) (hst : Stored place items g)
    (hids : (items.map fun i => i.1.id).Nodup) (hv : (v, true) ∈ items)
    (hc : g.consider (recording config) v.id v n s = (s', none)) :
    Advance config items s.walk.lists s'.walk.lists := by
  rcases consider_recording_cases hc with ⟨rfl, -⟩ | ⟨u, primary, hcand, hrest⟩
  · exact Advance.refl _
  obtain ⟨hu, rfl, -⟩ := (hst.candidate_eq_some hids).mp hcand
  rcases hrest with ⟨rfl, -⟩ | ⟨profile, -, -, hlists, -⟩
  · exact Advance.refl _
  have hmeasured : Advance config items s.walk.lists
      (s.walk.lists.note (.measured v.id u.id)) := Advance.measure v.id u.id
  rw [hlists]
  split
  · exact hmeasured.trans ((hmeasured.reachable h).add hv hu profile)
  · exact hmeasured

/-- A visit of a primary ends with its list gone. -/
theorem visit {w w' : Walk (List (Operation S)) ClusterList} {farthest : Option ItemId}
    (h : Reachable config items w.lists) (hst : Stored place items g)
    (hids : (items.map fun i => i.1.id).Nodup) (hv : (v, true) ∈ items)
    (hvisit : g.visit (recording config) w v.id = (w', .ok farthest)) :
    ReflTransGen (Step config items) w.lists w'.lists ∧
      w'.lists.slots[v.id]? = some .emptied := by
  have hvalue := hst.primary_eq_some.mpr ⟨hv, rfl⟩
  obtain ⟨hinit, hlist⟩ := h.init hv
  rcases g.visit_cases _ hvalue hvisit with ⟨lists, hi, rfl, -⟩ | ⟨lists, list, s, hi, hscan, hf, -⟩
  -- Only a list that is gone cannot be initialized.
  · rcases h.init_cases v with ⟨-, he⟩ | ⟨-, he⟩ | ⟨hgone, he⟩
    · rw [he] at hi
      cases hi
    · rw [he] at hi
      cases hi
    · rw [he] at hi
      cases hi
      exact ⟨ReflTransGen.refl, hgone⟩
  · rw [hi] at hinit hlist
    obtain ⟨-, hlive⟩ := hlist list rfl
    have hopen : Advance config items lists s.walk.lists := by
      refine g.scan_invariant (recording config) (g.neighbors v.id)
        (fun seen n rest t t' _ ht hc => ?_) (Advance.refl lists) hscan
        (I := fun _ t => Advance config items lists t.walk.lists)
      exact ht.trans (((hinit.trans ht).reachable h).consider hst hids hv hc)
    have hend : s.walk.lists.slots[v.id]? = some (.live ⟨v.id⟩) := hopen.live v.id hlive
    rw [finish_eq, handOver_of_live hend] at hf
    cases hf
    refine ⟨(hinit.trans hopen).steps.tail (.conclude hend), ?_⟩
    show (Clustering.conclude config v.id s.walk.lists).slots[v.id]? = _
    rw [slots_conclude, if_pos rfl]

end Reachable

end Clustering

end DensityClustering
