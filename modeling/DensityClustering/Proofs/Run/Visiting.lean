import DensityClustering.Proofs.Cluster.Accord
import DensityClustering.Proofs.Run.Contacts
import DensityClustering.Proofs.Run.Recording

/-!
One visit of a run of merging clusters. While the center meets its neighbours, the clusters agree
with the contacts made so far; once it is handed over, they agree with the contacts of all visits.
-/

namespace DensityClustering

open ClusterIndex (Operation after Accord Ownership)
open Std (ExtTreeSet)

namespace Clustering

variable {S : Type} [Scalar S]

/-- A run of merging clusters over items with distinct ids, and the group that holds them. -/
structure Setting (S : Type) [Scalar S] where
  config : RunConfig
  place : ClusterItem S → Placement
  items : List (ClusterItem S × Bool)
  group : Group (ClusterItem S)
  merging : config.kind = .merging
  positive : 0 < config.minOwners
  distinct : (items.map fun i => i.1.id).Nodup
  counts : ∀ i ∈ items, i.1.count ≤ largestCount
  stored : Stored place items group
  range : group.maxDistance = config.maxDistance

namespace Setting

variable (e : Setting S)

/-- What the ids count for. -/
def survey : Survey := Clustering.survey e.config e.items e.distinct e.positive

/-- The clusters after operations. -/
def clusters (ops : List (Operation S)) : ClusterIndex S := after e.config.cluster ops

/-- No operation joined two compressed clusters. -/
def calm (ops : List (Operation S)) : Prop :=
  (ClusterIndex.empty e.config.cluster).calm ops = true

theorem clusters_concat (ops : List (Operation S)) (op : Operation S) :
    e.clusters (ops ++ [op]) = (e.clusters ops).apply op :=
  ClusterIndex.after_concat ..

theorem calm_of_prefix {ops ops' : List (Operation S)} (hpre : ops <+: ops') (h : e.calm ops') :
    e.calm ops :=
  ClusterIndex.calm_of_longer _ hpre h

theorem calm_concat {ops : List (Operation S)} {op : Operation S} (h : e.calm (ops ++ [op])) :
    e.calm ops ∧ (e.clusters ops).calmStep op = true :=
  (ClusterIndex.calm_concat ..).mp h

/-- The visited primaries, the one that is visited now, and those that wait are all there are. -/
structure Agenda (order : List ItemId) (center : ItemId) (pending : ExtTreeSet ItemId) : Prop where
  primary : ∀ id, IsPrimary e.items id ↔ id ∈ order ∨ id = center ∨ id ∈ pending
  fresh : center ∉ order
  waiting : ∀ id ∈ pending, id ∉ order ∧ id ≠ center

/-- An id that the center may still meet. -/
def Candidate (pending : ExtTreeSet ItemId) (id : ItemId) : Prop :=
  ∃ i ∈ e.items, i.1.id = id ∧ (i.2 = true → id ∈ pending)

/-- Contact by an earlier visit, or with the center since it met the ids `met`. -/
def InContact (order : List ItemId) (center : ItemId) (pending : ExtTreeSet ItemId)
    (met : List ItemId) (p q : ItemId) : Prop :=
  contact e.config e.place e.items order p q = true ∨
    (p = center ∧ q ∈ met ∧ e.Candidate pending q ∧
      near e.config e.place e.items center q = true) ∨
    (q = center ∧ p ∈ met ∧ p ∈ pending ∧ near e.config e.place e.items center p = true)

/-- The lists of a run that visited `order`: those of visited centers are gone, and the active ids
have one as soon as they own a cluster. -/
structure Open (order : List ItemId) (active : ItemId → Prop)
    (index : NeighborIndex (List (Operation S)) ClusterList) : Prop where
  journal : visits index.journal = order.reverse
  emptied : ∀ id, index.slots[id]? = some .emptied ↔ id ∈ order
  live : ∀ id (l : ClusterList), index.slots[id]? = some (.live l) → l = ⟨id⟩
  owned : ∀ id, active id →
    (index.slots[id]? = none ↔ (e.clusters index.shared).clusterOf id = none)

/-- A stage in which a center is visited. -/
def during (order : List ItemId) (center : ItemId) (pending : ExtTreeSet ItemId) : Stage :=
  ⟨fun id => id ∈ order, fun id => id ∈ pending, some center⟩

/-- The clusters and the lists during a visit. -/
structure Midway (order : List ItemId) (center : ItemId) (pending : ExtTreeSet ItemId)
    (met : List ItemId) (index : NeighborIndex (List (Operation S)) ClusterList) : Prop where
  lists : e.Open order (fun id => id ∈ pending ∨ id = center) index
  opened : index.slots[center]? = some (.live ⟨center⟩)
  accord : ∃ R, Accord e.survey (e.clusters index.shared) R (during order center pending) ∧
    (∀ id ∈ pending, index.slots[id]? = none → ∀ t, R id t = false) ∧
    ∀ p q, R p q = true ↔ e.InContact order center pending met p q

variable {e} {order : List ItemId} {center n : ItemId} {pending : ExtTreeSet ItemId}
  {met : List ItemId} {index : NeighborIndex (List (Operation S)) ClusterList}

/-- The next of the primaries that wait becomes the center. -/
theorem Agenda.enter (hprimary : ∀ id, IsPrimary e.items id ↔ id ∈ order ∨ id ∈ pending)
    (hwaiting : ∀ id ∈ pending, id ∉ order) (hin : center ∈ pending) :
    e.Agenda order center (pending.erase center) := by
  have herase : ∀ id, id ∈ pending.erase center ↔ id ≠ center ∧ id ∈ pending := fun id => by
    rw [ExtTreeSet.mem_erase, ne_eq, Std.LawfulEqCmp.compare_eq_iff_eq, eq_comm]
  refine ⟨fun id => ?_, hwaiting center hin, fun id hid => ?_⟩
  · rw [hprimary, herase]
    by_cases hid : id = center
    · simp [hid, hin]
    · simp [hid]
  · rw [herase] at hid
    exact ⟨hwaiting id hid.2, hid.1⟩

/-- A center that was visited is one of the visited primaries. -/
theorem Agenda.leave (h : e.Agenda order center pending) :
    (∀ id, IsPrimary e.items id ↔ id ∈ order ++ [center] ∨ id ∈ pending) ∧
      ∀ id ∈ pending, id ∉ order ++ [center] := by
  refine ⟨fun id => ?_, fun id hid => ?_⟩
  · rw [h.primary, List.mem_append, List.mem_singleton, or_assoc]
  · rw [List.mem_append, List.mem_singleton, not_or]
    exact h.waiting id hid

theorem inContact_concat {p q : ItemId} : e.InContact order center pending (met ++ [n]) p q ↔
    e.InContact order center pending met p q ∨
      (near e.config e.place e.items center n = true ∧
        ((p = center ∧ q = n ∧ e.Candidate pending n) ∨ (p = n ∧ q = center ∧ n ∈ pending))) := by
  simp only [InContact, List.mem_append, List.mem_singleton]
  constructor
  · rintro (h | ⟨hp, hq | rfl, hc, hn⟩ | ⟨hq, hp | rfl, hpend, hn⟩)
    · exact Or.inl (Or.inl h)
    · exact Or.inl (Or.inr (Or.inl ⟨hp, hq, hc, hn⟩))
    · exact Or.inr ⟨hn, Or.inl ⟨hp, rfl, hc⟩⟩
    · exact Or.inl (Or.inr (Or.inr ⟨hq, hp, hpend, hn⟩))
    · exact Or.inr ⟨hn, Or.inr ⟨rfl, hq, hpend⟩⟩
  · rintro ((h | ⟨hp, hq, hc, hn⟩ | ⟨hq, hp, hpend, hn⟩) | ⟨hn, ⟨hp, rfl, hc⟩ | ⟨rfl, hq, hpend⟩⟩)
    · exact Or.inl h
    · exact Or.inr (Or.inl ⟨hp, Or.inl hq, hc, hn⟩)
    · exact Or.inr (Or.inr ⟨hq, Or.inl hp, hpend, hn⟩)
    · exact Or.inr (Or.inl ⟨hp, Or.inr rfl, hc, hn⟩)
    · exact Or.inr (Or.inr ⟨hq, Or.inr rfl, hpend, hn⟩)

/-- The center and an id it has not met are not in contact. -/
theorem not_inContact (ha : e.Agenda order center pending) (hn : n ∉ order) (hne : n ≠ center)
    (hmet : n ∉ met) : ¬e.InContact order center pending met center n ∧
      ¬e.InContact order center pending met n center := by
  -- Neither of the two was visited, so earlier visits put them in no contact.
  have hno : contact e.config e.place e.items order center n = false :=
    not_contact_of_not_mem ha.fresh hn
  have hno' : contact e.config e.place e.items order n center = false :=
    not_contact_of_not_mem hn ha.fresh
  constructor
  · rintro (h | ⟨-, hm, -⟩ | ⟨he, -⟩)
    · rw [hno] at h
      cases h
    · exact hmet hm
    · exact hne he
  · rintro (h | ⟨he, -⟩ | ⟨-, hm, -⟩)
    · rw [hno'] at h
      cases h
    · exact hne he
    · exact hmet hm

theorem offer_eq {index' : NeighborIndex (List (Operation S)) ClusterList} {v u : ClusterItem S}
    (hinit : index.init (recording e.config).lists v.id v = (index', some ⟨v.id⟩)) {c : ClusterId}
    (hc : (e.clusters index'.shared).clusterOf v.id = some c)
    (profile : DistanceProfile (Contact S)) :
    (index.offer (recording e.config).lists profile v.id v u.id u).1 =
      (perform index' (.link c profile.context u.id)).put v.id ⟨v.id⟩ := by
  unfold clusters at hc
  rw [offer_of_init profile v u.id u hinit]
  simp only [hc]

namespace Open

variable {active : ItemId → Prop}

/-- A live list links its cluster. -/
theorem link (h : e.Open order active index) {id : ItemId}
    (hid : index.slots[id]? = some (.live ⟨id⟩)) (c : ClusterId) (contact : Contact S)
    (t : ItemId) :
    e.Open order active ((perform index (.link c contact t)).put id ⟨id⟩) ∧
      ∀ id' : ItemId, ((perform index (.link c contact t)).put id ⟨id⟩).slots[id']? =
        index.slots[id']? := by
  have hslots : ∀ id' : ItemId, ((perform index (.link c contact t)).put id ⟨id⟩).slots[id']? =
      index.slots[id']? := by
    intro id'
    rw [NeighborIndex.slots_put]
    split
    · next he => rw [he, hid]
    · rfl
  refine ⟨⟨h.journal, fun id' => ?_, fun id' l hl => ?_, fun id' hid' => ?_⟩, hslots⟩
  · rw [hslots]
    exact h.emptied id'
  · rw [hslots] at hl
    exact h.live id' l hl
  · rw [hslots, h.owned id' hid']
    show _ ↔ (e.clusters (index.shared ++ [.link c contact t])).clusterOf id' = none
    rw [e.clusters_concat]
    exact ((Ownership.after e.config.cluster index.shared).clusterOf_addLink_eq_none c contact t
      id').symm

/-- A new list creates a cluster. -/
theorem create (h : e.Open order active index) {u : ClusterItem S}
    (hnone : index.slots[u.id]? = none) (hactive : active u.id) :
    e.Open order active
      (((perform index (.create u.id u)).note (.built u.id)).put u.id ⟨u.id⟩) := by
  have hslots : ∀ id' : ItemId,
      (((perform index (.create u.id u)).note (.built u.id)).put u.id ⟨u.id⟩).slots[id']? =
        if id' = u.id then some (.live ⟨u.id⟩) else index.slots[id']? :=
    fun id' => NeighborIndex.slots_put id'
  have hunowned : (e.clusters index.shared).clusterOf u.id = none :=
    (h.owned u.id hactive).mp hnone
  refine ⟨h.journal, fun id' => ?_, fun id' l hl => ?_, fun id' hid' => ?_⟩
  · rw [hslots, ← h.emptied]
    split
    · next he => simp [he, hnone]
    · rfl
  · rw [hslots] at hl
    split at hl
    · next he =>
      cases hl
      rw [he]
    · exact h.live id' l hl
  · rw [hslots]
    show _ ↔ (e.clusters (index.shared ++ [.create u.id u])).clusterOf id' = none
    rw [e.clusters_concat, ClusterIndex.apply, ClusterIndex.clusterOf_getOrCreate _ u hunowned]
    split
    · simp
    · exact h.owned id' hid'

/-- What a neighbour does to the lists that does not change them but in the journal. -/
theorem note_measured (h : e.Open order active index) (a b : ItemId) :
    e.Open order active (index.note (.measured a b)) :=
  ⟨h.journal, h.emptied, h.live, h.owned⟩

/-- An active id gets a list, and with it a cluster, without breaking the agreement. -/
theorem exists_init (h : e.Open order active index) {R : ItemId → ItemId → Bool} {stage : Stage}
    (haccord : Accord e.survey (e.clusters index.shared) R stage) {v : ClusterItem S}
    {primary : Bool} (hv : (v, primary) ∈ e.items) (hactive : active v.id) (hnot : v.id ∉ order)
    (hdone : ¬stage.done v.id) (hcenter : stage.center ≠ some v.id)
    (hunbuilt : index.slots[v.id]? = none → ∀ t, R v.id t = false) :
    ∃ index' c, index.init (recording e.config).lists v.id v = (index', some ⟨v.id⟩) ∧
      e.Open order active index' ∧ Accord e.survey (e.clusters index'.shared) R stage ∧
      (e.clusters index'.shared).clusterOf v.id = some c ∧
      index'.slots[v.id]? = some (.live ⟨v.id⟩) ∧
      ∀ id : ItemId, id ≠ v.id → index'.slots[id]? = index.slots[id]? := by
  -- Without a list there is no cluster yet either, and one is created for both.
  cases hslot : index.slots[v.id]? with
  | none =>
    refine ⟨_, ⟨(e.clusters index.shared).slots.size⟩, init_of_none v hslot,
      h.create hslot hactive, ?_, ?_, ?_, fun id hid => ?_⟩
    · show Accord e.survey (e.clusters (index.shared ++ [.create v.id v])) R stage
      rw [e.clusters_concat]
      refine haccord.create ((h.owned v.id hactive).mp hslot) ?_ (hunbuilt hslot)
        (fun he => absurd he hcenter) hdone
      rw [survey, weight_survey e.distinct e.positive hv, Nat.min_eq_left (e.counts _ hv)]
    · show (e.clusters (index.shared ++ [.create v.id v])).clusterOf v.id = _
      rw [e.clusters_concat, ClusterIndex.apply,
        ClusterIndex.clusterOf_getOrCreate _ v ((h.owned v.id hactive).mp hslot), if_pos rfl]
    · rw [NeighborIndex.slots_put, if_pos rfl]
    · rw [NeighborIndex.slots_put, if_neg hid]
      rfl
  | some slot =>
    cases slot with
    -- A list that was handed over belongs to a visited id.
    | emptied => exact absurd ((h.emptied v.id).mp hslot) hnot
    | live l =>
      obtain ⟨c, hc⟩ := Option.ne_none_iff_exists'.mp fun hno => by
        rw [(h.owned v.id hactive).mpr hno] at hslot
        cases hslot
      have hl := h.live v.id l hslot
      subst hl
      exact ⟨index, c, NeighborIndex.init_of_live _ v hslot, h, haccord, hc, hslot, fun _ _ => rfl⟩

/-- A live list is offered an id that is new to its cluster. -/
theorem offer (h : e.Open order active index) {R : ItemId → ItemId → Bool} {stage : Stage}
    (haccord : Accord e.survey (e.clusters index.shared) R stage) {v u : ClusterItem S}
    {primary : Bool} (hu : (u, primary) ∈ e.items) {c : ClusterId}
    (hopened : index.slots[v.id]? = some (.live ⟨v.id⟩))
    (hc : (e.clusters index.shared).clusterOf v.id = some c) (hne : u.id ≠ v.id)
    (hnew : R v.id u.id = false) (hdone : ¬stage.done v.id)
    (hwait : stage.pending u.id → stage.center = some v.id)
    (profile : DistanceProfile (Contact S))
    (hcalm : e.calm (perform index (.link c profile.context u.id)).shared) :
    e.Open order active ((perform index (.link c profile.context u.id)).put v.id ⟨v.id⟩) ∧
      Accord e.survey (e.clusters (perform index (.link c profile.context u.id)).shared)
        (meet R v.id u.id) stage ∧
      ∀ id : ItemId, ((perform index (.link c profile.context u.id)).put v.id ⟨v.id⟩).slots[id]? =
        index.slots[id]? := by
  obtain ⟨hopen, hslots⟩ := h.link hopened c profile.context u.id
  refine ⟨hopen, ?_, hslots⟩
  show Accord e.survey (e.clusters (index.shared ++ [.link c profile.context u.id])) _ stage
  rw [e.clusters_concat]
  exact haccord.addLink hc hne hnew (List.mem_map_of_mem hu) hdone hwait profile.context
    (e.calm_concat hcalm).2

end Open

/-- The ids that the center may still meet were not visited. -/
theorem Agenda.not_mem_order (ha : e.Agenda order center pending) (hn : e.Candidate pending n) :
    n ∉ order := by
  intro hin
  obtain ⟨i, hi, rfl, hwait⟩ := hn
  obtain ⟨v, hv, hid⟩ := (ha.primary _).mpr (Or.inl hin)
  have he := eq_of_mem_of_id_eq e.distinct hi hv hid.symm
  subst he
  exact (ha.waiting _ (hwait rfl)).1 hin

theorem Agenda.candidate (ha : e.Agenda order center pending) (hn : n ∈ pending) :
    e.Candidate pending n := by
  obtain ⟨v, hv, hid⟩ := (ha.primary n).mpr (Or.inr (Or.inr hn))
  exact ⟨(v, true), hv, hid, fun _ => hn⟩

namespace Midway

theorem note_measured (h : e.Midway order center pending met index) (a b : ItemId) :
    e.Midway order center pending met (index.note (.measured a b)) :=
  ⟨h.lists.note_measured a b, h.opened, h.accord⟩

theorem exists_owner (h : e.Midway order center pending met index) :
    ∃ c, (e.clusters index.shared).clusterOf center = some c := by
  refine Option.ne_none_iff_exists'.mp fun hnone => ?_
  have hslot := (h.lists.owned center (Or.inr rfl)).mpr hnone
  rw [h.opened] at hslot
  cases hslot

/-- The center goes past an id that is out of range or was visited before. -/
theorem pass (h : e.Midway order center pending met index)
    (ha : e.Agenda order center pending)
    (hno : e.Candidate pending n → near e.config e.place e.items center n = false) :
    e.Midway order center pending (met ++ [n]) index := by
  obtain ⟨R, haccord, hunbuilt, hR⟩ := h.accord
  refine ⟨h.lists, h.opened, R, haccord, hunbuilt, fun p q => ?_⟩
  rw [hR, inContact_concat, or_iff_left]
  rintro ⟨hnear, ⟨-, -, hcand⟩ | ⟨-, -, hpend⟩⟩
  · rw [hno hcand] at hnear
    cases hnear
  · rw [hno (ha.candidate hpend)] at hnear
    cases hnear

/-- A contact with an id that the cluster of the center owns or links to already. -/
theorem skip (h : e.Midway order center pending met index) (ha : e.Agenda order center pending)
    (hn : e.Candidate pending n) (hne : n ≠ center) (hmet : n ∉ met)
    (hnear : near e.config e.place e.items center n = true) {c : ClusterId}
    (hc : (e.clusters index.shared).clusterOf center = some c)
    (hskip : (e.clusters index.shared).clusterOf n = some c ∨
      (e.clusters index.shared).links.contains c n = true) :
    e.Midway order center pending (met ++ [n]) index := by
  obtain ⟨R, haccord, hunbuilt, hR⟩ := h.accord
  have hnot := ha.not_mem_order hn
  obtain ⟨hno, hno'⟩ := not_inContact ha hnot hne hmet
  rw [← hR, Bool.not_eq_true] at hno hno'
  have hst := haccord.standing center c hc
  -- The direction from the center: its cluster is large by the other member, or counts the link.
  have hfirst : Accord e.survey (e.clusters index.shared) (meet R center n)
      (during order center pending) := by
    refine haccord.meet_large hc ?_ ha.fresh (Or.inl ?_)
    · rcases hskip with hown | hlink
      · exact hst.of_other_member (haccord.own.listed n c hown) hne
      · exact hst.of_link haccord.chained hlink hno
    · rintro (hin | he)
      · exact hnot hin
      · exact hne (Option.some.inj he).symm
  have hmeet : ∀ id, id ≠ center → meet R center n id = R id := fun id hid => by
    funext t
    simp [meet, hid]
  by_cases hpend : n ∈ pending
  · -- A link to an id that waits is one that the center asked for, so the cluster owns `n`.
    have hown : (e.clusters index.shared).clusterOf n = some c := by
      rcases hskip with hown | hlink
      · exact hown
      · obtain ⟨p, hp, -, hpn⟩ := haccord.waiting c n hlink hpend
        rw [← Option.some.inj hp, hno] at hpn
        cases hpn
    -- The direction back: that cluster is `n`'s too, and large by the center.
    have hlarge := (hfirst.standing n c hown).of_other_member
      (haccord.own.listed center c hc) hne.symm
    refine ⟨h.lists, h.opened, _, hfirst.meet_large hown hlarge hnot (Or.inr hc), ?_, ?_⟩
    · intro id hid hslot t
      have hidn : id ≠ n := by
        rintro rfl
        rw [(h.lists.owned id (Or.inl hid)).mp hslot] at hown
        cases hown
      have hidc : id ≠ center := (ha.waiting id hid).2
      rw [← Bool.not_eq_true, Survey.meet_eq_true, hmeet id hidc, hunbuilt id hid hslot]
      simp [hidn]
    · intro p q
      rw [Survey.meet_eq_true, Survey.meet_eq_true, hR, inContact_concat, or_assoc]
      simp only [hnear, hn, hpend, true_and, and_true]
  -- `n` does not wait, so only the direction from the center counts.
  · refine ⟨h.lists, h.opened, _, hfirst, fun id hid hslot t => ?_, fun p q => ?_⟩
    · rw [hmeet id (ha.waiting id hid).2]
      exact hunbuilt id hid hslot t
    · rw [Survey.meet_eq_true, hR, inContact_concat]
      simp only [hnear, hn, hpend, true_and, and_true, and_false, or_false]

/-- The center and an id in range are offered to each other's lists. -/
theorem add (h : e.Midway order center pending met index) (ha : e.Agenda order center pending)
    {v u : ClusterItem S} {primary : Bool} (hv : (v, true) ∈ e.items) (hvid : v.id = center)
    (hu : (u, primary) ∈ e.items) (hpend : primary = true → u.id ∈ pending) (hne : u.id ≠ center)
    (hmet : u.id ∉ met) (hnear : near e.config e.place e.items center u.id = true)
    (profile : DistanceProfile (Contact S))
    (hcalm : e.calm (index.add (recording e.config).lists profile v.id v u.id u primary).1.shared) :
    e.Midway order center pending (met ++ [u.id])
      (index.add (recording e.config).lists profile v.id v u.id u primary).1 := by
  subst hvid
  obtain ⟨R, haccord, hunbuilt, hR⟩ := h.accord
  have hcand : e.Candidate pending u.id := ⟨(u, primary), hu, rfl, hpend⟩
  have hnot := ha.not_mem_order hcand
  obtain ⟨hno, hno'⟩ := not_inContact ha hnot hne hmet
  rw [← hR, Bool.not_eq_true] at hno hno'
  obtain ⟨c, hc⟩ := h.exists_owner
  have hoffer := offer_eq (u := u) (NeighborIndex.init_of_live _ v h.opened) hc profile
  have hmeet : ∀ id, id ≠ v.id → meet R v.id u.id id = R id := fun id hid => by
    funext t
    simp [meet, hid]
  cases primary with
  | false =>
    rw [NeighborIndex.add_false, hoffer] at hcalm ⊢
    obtain ⟨hopen, hfirst, hslots⟩ := h.lists.offer haccord hu h.opened hc hne hno ha.fresh
      (fun _ => rfl) profile hcalm
    -- Ids are distinct, so an item that is no primary does not wait under its id.
    have hout : u.id ∉ pending := by
      intro hin
      obtain ⟨w, hw, hwid⟩ := (ha.primary u.id).mpr (Or.inr (Or.inr hin))
      cases eq_of_mem_of_id_eq e.distinct hw hu hwid
    refine ⟨hopen, (hslots v.id).trans h.opened, _, hfirst, fun id hid hslot t => ?_,
      fun p q => ?_⟩
    · rw [hmeet id (ha.waiting id hid).2]
      exact hunbuilt id hid ((hslots id).symm.trans hslot) t
    · rw [Survey.meet_eq_true, hR, inContact_concat]
      simp only [hnear, hcand, hout, true_and, and_true, and_false, or_false]
  | true =>
    have hin : u.id ∈ pending := hpend rfl
    rw [NeighborIndex.add_true, hoffer] at hcalm ⊢
    have hcalm' := e.calm_of_prefix (prefix_offer profile u.id u v.id v) hcalm
    obtain ⟨hopen, hfirst, hslots⟩ := h.lists.offer haccord hu h.opened hc hne hno ha.fresh
      (fun _ => rfl) profile hcalm'
    obtain ⟨index₂, d, hinit, hopen₂, hsecond, hd, hopened₂, hslots₂⟩ :=
      hopen.exists_init hfirst hu (Or.inl hin) hnot hnot (fun he => hne (Option.some.inj he).symm)
        fun hslot t => by
          rw [hmeet u.id hne]
          exact hunbuilt u.id hin ((hslots u.id).symm.trans hslot) t
    have hback := offer_eq (u := v) hinit hd profile
    rw [hback] at hcalm ⊢
    obtain ⟨hopen₃, hthird, hslots₃⟩ := hopen₂.offer hsecond hv hopened₂ hd hne.symm
      (by rw [hmeet u.id hne, hno']) hnot (fun hw => absurd rfl (ha.waiting v.id hw).2) profile hcalm
    refine ⟨hopen₃, ?_, _, hthird, fun id hid hslot t => ?_, fun p q => ?_⟩
    · rw [hslots₃, hslots₂ v.id hne.symm, hslots]
      exact h.opened
    · have hidc : id ≠ v.id := (ha.waiting id hid).2
      have hidu : id ≠ u.id := by
        rintro rfl
        rw [hslots₃, hopened₂] at hslot
        cases hslot
      rw [hslots₃, hslots₂ id hidu] at hslot
      rw [← Bool.not_eq_true, Survey.meet_eq_true, hmeet id hidc,
        hunbuilt id hid ((hslots id).symm.trans hslot)]
      simp [hidu]
    · rw [Survey.meet_eq_true, Survey.meet_eq_true, hR, inContact_concat, or_assoc]
      simp only [hnear, hcand, hin, true_and, and_true]

/-- The center deals with a neighbour. -/
theorem consider {s s' : Scan (List (Operation S)) ClusterList} {v : ClusterItem S}
    (h : e.Midway order center pending met s.walk.lists) (ha : e.Agenda order center pending)
    (hv : (v, true) ∈ e.items) (hvid : v.id = center) (hn : n ∈ e.group.neighbors center)
    (hmet : n ∉ met) (hpending : s.walk.pending = pending)
    (hc : e.group.consider (recording e.config) center v n s = (s', none))
    (hcalm : e.calm s'.walk.lists.shared) :
    e.Midway order center pending (met ++ [n]) s'.walk.lists := by
  have hne : n ≠ center := ((e.group.mem_neighbors).mp hn).1
  rcases consider_recording_cases hc with ⟨rfl, hno⟩ | ⟨u, primary, hcand, hrest⟩
  · -- A primary that was visited does not count, and all others do.
    refine h.pass ha fun ⟨⟨w, b⟩, hw, hid, hwait⟩ => ?_
    have hsome : e.group.candidate s'.walk.pending n = some (w, b) :=
      (e.stored.candidate_eq_some e.distinct).mpr ⟨hw, hid, fun hb => by
        rw [hpending]
        exact hwait hb⟩
    rw [hno] at hsome
    cases hsome
  obtain ⟨hu, rfl, hwait⟩ := (e.stored.candidate_eq_some e.distinct).mp hcand
  rw [hpending] at hwait
  subst hvid
  have hclose : near e.config e.place e.items v.id u.id = isClose e.config e.place v u :=
    near_of_mem e.distinct hv hu
  rcases hrest with ⟨rfl, hskip⟩ | ⟨profile, hprofile, -, hlists, -⟩
  · cases hnear : near e.config e.place e.items v.id u.id with
    | false => exact h.pass ha fun _ => hnear
    | true =>
      obtain ⟨c, hc⟩ := h.exists_owner
      exact h.skip ha ⟨(u, primary), hu, rfl, hwait⟩ hne hmet hnear hc
        (infer_eq_skip h.opened hc hskip)
  · rw [e.stored.isClose_eq e.distinct e.range hv hu hn hprofile] at hclose
    rw [hlists] at hcalm ⊢
    by_cases hle : profile.distance ≤ e.group.maxDistance
    · rw [if_pos hle] at hcalm ⊢
      rw [decide_eq_true hle] at hclose
      exact (h.note_measured v.id u.id).add ha hv rfl hu hwait hne hmet hclose profile hcalm
    · rw [if_neg hle]
      rw [decide_eq_false hle] at hclose
      exact (h.note_measured v.id u.id).pass ha fun _ => hclose

end Midway

end Setting

end Clustering

end DensityClustering
