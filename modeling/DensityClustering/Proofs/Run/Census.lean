import DensityClustering.Proofs.Cluster.Tally
import DensityClustering.Proofs.Run.Components
import DensityClustering.Proofs.Run.Ending

/-!
What a run of clusters that do not merge finds: each core primary by itself, with its exact count.
Whom a center meets is the same as in a run of merging clusters, and every contact becomes a link
that counts one, since no cluster owns or links to an id that was not met yet.
-/

namespace DensityClustering

open ClusterIndex (Operation after Ownership Tally)
open Std (ExtTreeSet)

namespace Clustering

variable {S : Type} [Scalar S]

namespace Setting

variable (e : Setting S)

/-- The same settings for clusters that do not merge, which changes nothing about who meets whom. -/
def apart : RunConfig := { e.config with kind := .preProcess }

/-- The clusters of a run without merges. -/
def singles (ops : List (Operation S)) : ClusterIndex S := after e.apart.cluster ops

theorem singles_concat (ops : List (Operation S)) (op : Operation S) :
    e.singles (ops ++ [op]) = (e.singles ops).apply op :=
  ClusterIndex.after_concat ..

/-- The lists of a run without merges that visited `order` and made the contacts `R`. -/
structure Counted (order : List ItemId) (R : ItemId → ItemId → Bool)
    (index : NeighborIndex (List (Operation S)) ClusterList) : Prop where
  reachable : Reachable e.apart e.items index
  journal : visits index.journal = order.reverse
  owned : ∀ id : ItemId, index.slots[id]? = some (.live ⟨id⟩) →
    ∃ c, (e.singles index.shared).clusterOf id = some c
  unbuilt : ∀ id : ItemId, index.slots[id]? = none → ∀ t, R id t = false
  tally : Tally e.survey (e.singles index.shared) R fun id => id ∈ order

variable {e} {order : List ItemId} {R : ItemId → ItemId → Bool} {center n : ItemId}
  {pending : ExtTreeSet ItemId} {met : List ItemId}
  {index : NeighborIndex (List (Operation S)) ClusterList} {v u : ClusterItem S}

namespace Counted

theorem emptied_iff (h : e.Counted order R index) (id : ItemId) :
    index.slots[id]? = some .emptied ↔ id ∈ order := by
  rw [h.reachable.kept.emptied, h.journal, List.mem_reverse]

theorem unowned (h : e.Counted order R index) {id : ItemId} (hid : index.slots[id]? = none) :
    (e.singles index.shared).clusterOf id = none := by
  by_contra hsome
  obtain ⟨c, hc⟩ := Option.ne_none_iff_exists'.mp hsome
  have hcreated : id ∈ creations index.shared := mem_creations_of_clusterOf hc
  exact (h.reachable.kept.created id).mp hcreated hid

theorem measure (h : e.Counted order R index) (a b : ItemId) :
    e.Counted order R (index.note (.measured a b)) :=
  ⟨h.reachable.tail (.measure a b), h.journal, h.owned, h.unbuilt, h.tally⟩

theorem build (h : e.Counted order R index) (hv : (v, true) ∈ e.items)
    (hfresh : index.slots[v.id]? = none) : e.Counted order R (Clustering.build index v) := by
  have hnone := h.unowned hfresh
  have hclusters : e.singles (Clustering.build index v).shared =
      ((e.singles index.shared).getOrCreate v.id v).1 := e.singles_concat _ _
  have howner : ∀ id, (e.singles (Clustering.build index v).shared).clusterOf id =
      if id = v.id then some ⟨(e.singles index.shared).slots.size⟩
      else (e.singles index.shared).clusterOf id := by
    rw [hclusters]
    exact ClusterIndex.clusterOf_getOrCreate _ v hnone
  refine ⟨h.reachable.tail (.build hv hfresh), h.journal, fun id hid => ?_, fun id hid => ?_, ?_⟩
  · rw [howner]
    split
    · exact ⟨_, rfl⟩
    · next hne =>
      rw [slots_build, if_neg hne] at hid
      exact h.owned id hid
  · rw [slots_build] at hid
    split at hid
    · cases hid
    · exact h.unbuilt id hid
  · rw [hclusters]
    have hcount : e.survey.weight v.id = min v.count largestCount := by
      have hweight : e.survey.weight v.id = v.count := weight_survey e.distinct e.positive hv
      have hmax : v.count ≤ largestCount := e.counts _ hv
      rw [hweight, Nat.min_eq_left hmax]
    exact h.tally.create hnone hcount (h.unbuilt v.id hfresh)

theorem link (h : e.Counted order R index) {id : ItemId}
    (hlive : index.slots[id]? = some (.live ⟨id⟩)) {c : ClusterId}
    (hc : (e.singles index.shared).clusterOf id = some c) {t : ItemId} (hne : t ≠ id)
    (hnew : R id t = false) (ht : t ∈ e.survey.ids) (contact : Contact S) :
    e.Counted order (meet R id t) (perform index (.link c contact t)) := by
  obtain ⟨htally, howner⟩ := h.tally.addLink hc hne hnew ht contact
  have hclusters : e.singles (perform index (.link c contact t)).shared =
      ((e.singles index.shared).addLink c contact t).1 := e.singles_concat _ _
  refine ⟨h.reachable.tail (.link hlive hc contact t), h.journal, fun id' hid' => ?_,
    fun id' hid' u => ?_, hclusters ▸ htally⟩
  · rw [hclusters, howner]
    exact h.owned id' hid'
  · have hid : index.slots[id']? = none := hid'
    rw [← Bool.not_eq_true, Survey.meet_eq_true, h.unbuilt id' hid u]
    rintro (hno | ⟨rfl, -⟩)
    · cases hno
    · rw [hlive] at hid
      cases hid

/-- Offering a new contact to the list of a primary that was not visited. -/
theorem offer (h : e.Counted order R index) (hv : (v, true) ∈ e.items) (hnot : v.id ∉ order)
    {t : ItemId} (hne : t ≠ v.id) (hnew : R v.id t = false) (ht : t ∈ e.survey.ids)
    (profile : DistanceProfile (Contact S)) (w : ClusterItem S) :
    e.Counted order (meet R v.id t)
      (index.offer (recording e.apart).lists profile v.id v t w).1 := by
  have hlinked : ∀ index', e.Counted order R index' →
      index'.slots[v.id]? = some (.live ⟨v.id⟩) →
      index.init (recording e.apart).lists v.id v = (index', some ⟨v.id⟩) →
      e.Counted order (meet R v.id t)
        (index.offer (recording e.apart).lists profile v.id v t w).1 := by
    intro index' h' hlive hinit
    obtain ⟨c, hc⟩ := h'.owned v.id hlive
    have hc' : (after e.apart.cluster index'.shared).clusterOf v.id = some c := hc
    have hput : (perform index' (.link c profile.context t)).put v.id ⟨v.id⟩ =
        perform index' (.link c profile.context t) := put_of_live hlive
    rw [offer_of_init profile v t w hinit]
    simp only [hc', hput]
    exact h'.link hlive hc hne hnew ht profile.context
  rcases h.reachable.init_cases v with ⟨hfresh, hinit⟩ | ⟨hlive, hinit⟩ | ⟨hgone, -⟩
  · have hbuilt : (Clustering.build index v).slots[v.id]? = some (.live ⟨v.id⟩) := by
      rw [slots_build, if_pos rfl]
    exact hlinked _ (h.build hv hfresh) hbuilt hinit
  · exact hlinked index h hlive hinit
  · exact absurd ((h.emptied_iff v.id).mp hgone) hnot

/-- Settling the list of a center, which is large enough or noise. -/
theorem conclude (h : e.Counted order R index)
    (hlive : index.slots[center]? = some (.live ⟨center⟩)) :
    e.Counted (order ++ [center]) R (Clustering.conclude e.apart center index) := by
  obtain ⟨c, hc⟩ := h.owned center hlive
  have hc' : (⟨center⟩ : ClusterList).cluster (after e.apart.cluster index.shared) = some c := hc
  have hdone : (fun id => id ∈ order ++ [center]) = fun id => id ∈ order ∨ id = center := by
    funext id
    rw [List.mem_append, List.mem_singleton]
  -- Only the center may lose its cluster.
  have hsettled : Tally e.survey (e.singles (settlement e.apart ⟨center⟩ index.shared)) R
        (fun id => id ∈ order ++ [center]) ∧
      ∀ id, id ≠ center → (e.singles (settlement e.apart ⟨center⟩ index.shared)).clusterOf id =
        (e.singles index.shared).clusterOf id := by
    rw [hdone]
    rcases settlement_cases e.apart ⟨center⟩ index.shared with
      ⟨hnone, -⟩ | ⟨d, hd, ⟨hsize, he⟩ | ⟨-, he⟩⟩
    · rw [hc'] at hnone
      cases hnone
    · rw [hc', Option.some.injEq] at hd
      subst hd
      rw [he, e.singles_concat]
      exact h.tally.invalidate hc hsize
    · rw [hc', Option.some.injEq] at hd
      subst hd
      rw [he, e.singles_concat]
      obtain ⟨htally, howner⟩ := h.tally.finish hc
      exact ⟨htally, fun id _ => howner id⟩
  refine ⟨h.reachable.tail (.conclude hlive), ?_, fun id hid => ?_, fun id hid => ?_, hsettled.1⟩
  · show center :: visits index.journal = _
    rw [h.journal, List.reverse_append]
    rfl
  · rw [slots_conclude] at hid
    split at hid
    · cases hid
    · next hne =>
      obtain ⟨d, hd⟩ := h.owned id hid
      exact ⟨d, (hsettled.2 id hne).trans hd⟩
  · rw [slots_conclude] at hid
    split at hid
    · cases hid
    · exact h.unbuilt id hid

end Counted

variable (e) in
/-- A visit that met the ids `met`, in a run without merges. -/
structure Meeting (order : List ItemId) (center : ItemId) (pending : ExtTreeSet ItemId)
    (met : List ItemId) (index : NeighborIndex (List (Operation S)) ClusterList) : Prop where
  opened : index.slots[center]? = some (.live ⟨center⟩)
  counted : ∃ R, e.Counted order R index ∧
    ∀ p q, R p q = true ↔ e.InContact order center pending met p q

namespace Meeting

theorem measure (h : e.Meeting order center pending met index) (a b : ItemId) :
    e.Meeting order center pending met (index.note (.measured a b)) := by
  obtain ⟨R, hcounted, hR⟩ := h.counted
  exact ⟨h.opened, R, hcounted.measure a b, hR⟩

/-- The center goes past an id that is out of range or was visited before. -/
theorem pass (h : e.Meeting order center pending met index) (ha : e.Agenda order center pending)
    (hno : e.Candidate pending n → near e.config e.place e.items center n = false) :
    e.Meeting order center pending (met ++ [n]) index := by
  obtain ⟨R, hcounted, hR⟩ := h.counted
  refine ⟨h.opened, R, hcounted, fun p q => ?_⟩
  rw [hR, inContact_concat, or_iff_left]
  rintro ⟨hnear, ⟨-, -, hcand⟩ | ⟨-, -, hpend⟩⟩
  · rw [hno hcand] at hnear
    cases hnear
  · rw [hno (ha.candidate hpend)] at hnear
    cases hnear

/-- A list never skips an id that its center may still meet. -/
theorem not_skip (h : e.Meeting order center pending met index) (ha : e.Agenda order center pending)
    (hn : e.Candidate pending n) (hne : n ≠ center) (hmet : n ∉ met) :
    index.infer (recording e.apart).lists center n u ≠ .skip := by
  intro hskip
  obtain ⟨R, hcounted, hR⟩ := h.counted
  obtain ⟨c, hc⟩ := hcounted.owned center h.opened
  have hno := (not_inContact ha (ha.not_mem_order hn) hne hmet).1
  rcases infer_eq_skip h.opened hc hskip with hown | hlink
  · exact hne (hcounted.tally.owner_unique hc hown)
  · exact hno ((hR center n).mp (hcounted.tally.linked center c n hc hlink))

/-- The center and an id in range are offered to each other's lists. -/
theorem add (h : e.Meeting order center pending met index) (ha : e.Agenda order center pending)
    {primary : Bool} (hv : (v, true) ∈ e.items) (hvid : v.id = center)
    (hu : (u, primary) ∈ e.items) (hpend : primary = true → u.id ∈ pending) (hne : u.id ≠ center)
    (hmet : u.id ∉ met) (hnear : near e.config e.place e.items center u.id = true)
    (profile : DistanceProfile (Contact S)) :
    e.Meeting order center pending (met ++ [u.id])
      (index.add (recording e.apart).lists profile v.id v u.id u primary).1 := by
  subst hvid
  obtain ⟨R, hcounted, hR⟩ := h.counted
  have hcand : e.Candidate pending u.id := ⟨(u, primary), hu, rfl, hpend⟩
  have hnot : u.id ∉ order := ha.not_mem_order hcand
  obtain ⟨hno, hno'⟩ := not_inContact ha hnot hne hmet
  rw [← hR, Bool.not_eq_true] at hno hno'
  have hidv : v.id ∈ e.survey.ids := List.mem_map_of_mem hv
  have hidu : u.id ∈ e.survey.ids := List.mem_map_of_mem hu
  have hadvance := hcounted.reachable.add hv hu profile
  have hopened := hadvance.live v.id h.opened
  have hfirst := hcounted.offer hv ha.fresh hne hno hidu profile u
  cases primary with
  | false =>
    -- Ids are distinct, so an item that is no primary does not wait under its id.
    have hout : u.id ∉ pending := by
      intro hin
      obtain ⟨w, hw, hwid⟩ := (ha.primary u.id).mpr (Or.inr (Or.inr hin))
      cases eq_of_mem_of_id_eq e.distinct hw hu hwid
    refine ⟨hopened, _, hfirst, fun p q => ?_⟩
    rw [Survey.meet_eq_true, hR, inContact_concat]
    simp only [hnear, hcand, hout, true_and, and_true, and_false, or_false]
  | true =>
    have hin : u.id ∈ pending := hpend rfl
    have hback : meet R v.id u.id u.id v.id = false := by
      rw [← Bool.not_eq_true, Survey.meet_eq_true, hno']
      rintro (hno | ⟨he, -⟩)
      · cases hno
      · exact hne he
    have hsecond := hfirst.offer hu hnot hne.symm hback hidv profile v
    refine ⟨hopened, _, hsecond, fun p q => ?_⟩
    rw [Survey.meet_eq_true, Survey.meet_eq_true, hR, inContact_concat, or_assoc]
    simp only [hnear, hcand, hin, true_and, and_true]

/-- The center deals with a neighbour. -/
theorem consider {s s' : Scan (List (Operation S)) ClusterList}
    (h : e.Meeting order center pending met s.walk.lists) (ha : e.Agenda order center pending)
    (hv : (v, true) ∈ e.items) (hvid : v.id = center) (hn : n ∈ e.group.neighbors center)
    (hmet : n ∉ met) (hpending : s.walk.pending = pending)
    (hc : e.group.consider (recording e.apart) center v n s = (s', none)) :
    e.Meeting order center pending (met ++ [n]) s'.walk.lists := by
  have hne : n ≠ center := ((e.group.mem_neighbors).mp hn).1
  rcases consider_recording_cases hc with ⟨rfl, hno⟩ | ⟨u, primary, hcand, hrest⟩
  · refine h.pass ha fun ⟨⟨w, b⟩, hw, hid, hwait⟩ => ?_
    have hsome : e.group.candidate s'.walk.pending n = some (w, b) :=
      (e.stored.candidate_eq_some e.distinct).mpr ⟨hw, hid, fun hb => by
        rw [hpending]
        exact hwait hb⟩
    rw [hno] at hsome
    cases hsome
  obtain ⟨hu, rfl, hwait⟩ := (e.stored.candidate_eq_some e.distinct).mp hcand
  rw [hpending] at hwait
  subst hvid
  rcases hrest with ⟨-, hskip⟩ | ⟨profile, hprofile, -, hlists, -⟩
  · exact absurd hskip (h.not_skip ha ⟨(u, primary), hu, rfl, hwait⟩ hne hmet)
  have hclose : near e.config e.place e.items v.id u.id =
      decide (profile.distance ≤ e.group.maxDistance) := by
    rw [near_of_mem (i := (v, true)) e.distinct hv hu]
    exact e.stored.isClose_eq e.distinct e.range hv hu hn hprofile
  have hmeasured := h.measure v.id u.id
  rw [hlists]
  by_cases hle : profile.distance ≤ e.group.maxDistance
  · rw [if_pos hle]
    rw [decide_eq_true hle] at hclose
    exact hmeasured.add ha hv rfl hu hwait hne hmet hclose profile
  · rw [if_neg hle]
    rw [decide_eq_false hle] at hclose
    exact hmeasured.pass ha fun _ => hclose

end Meeting

variable (e) in
/-- No primary counts for more than 64 bits can hold. -/
def Fits (order : List ItemId) : Prop := ∀ i ∈ e.items, i.2 = true →
  i.1.count + adjacentCount e.config e.place e.items order i.1 ≤ largestCount

variable (e) in
/-- A walk of a run without merges that visited `order` and is not in the middle of a visit. -/
structure Surveyed (order : List ItemId) (w : Walk (List (Operation S)) ClusterList) : Prop where
  primary : ∀ id, IsPrimary e.items id ↔ id ∈ order ∨ id ∈ w.pending
  waiting : ∀ id ∈ w.pending, id ∉ order
  counted : e.Counted order (contact e.config e.place e.items order) w.lists

theorem Surveyed.start (pending : ExtTreeSet ItemId)
    (hpending : ∀ id, id ∈ pending ↔ IsPrimary e.items id) :
    e.Surveyed [] ⟨.start [], pending⟩ := by
  refine ⟨fun id => ?_, fun id _ => List.not_mem_nil, ⟨Relation.ReflTransGen.refl, rfl,
    fun id hid => ?_, fun id _ => ?_, ?_⟩⟩
  · rw [hpending]
    simp
  · rw [slots_start] at hid
    cases hid
  · exact fun t => not_contact_of_not_mem List.not_mem_nil List.not_mem_nil
  · exact Tally.empty e.survey e.apart.cluster rfl fun _ => List.not_mem_nil

/-- The next center gets a list. -/
theorem Surveyed.enter {w : Walk (List (Operation S)) ClusterList} (h : e.Surveyed order w)
    (hv : (v, true) ∈ e.items) (hin : v.id ∈ w.pending) :
    ∃ index, w.lists.init (recording e.apart).lists v.id v = (index, some ⟨v.id⟩) ∧
      e.Agenda order v.id (w.pending.erase v.id) ∧
      e.Meeting order v.id (w.pending.erase v.id) [] index := by
  have hagenda : e.Agenda order v.id (w.pending.erase v.id) :=
    Agenda.enter h.primary h.waiting hin
  have hmeeting : ∀ index, e.Counted order (contact e.config e.place e.items order) index →
      index.slots[v.id]? = some (.live ⟨v.id⟩) →
      e.Meeting order v.id (w.pending.erase v.id) [] index := by
    intro index hcounted hlive
    exact ⟨hlive, _, hcounted, fun p q => by simp [InContact]⟩
  rcases h.counted.reachable.init_cases v with ⟨hfresh, hinit⟩ | ⟨hlive, hinit⟩ | ⟨hgone, -⟩
  · have hbuilt : (Clustering.build w.lists v).slots[v.id]? = some (.live ⟨v.id⟩) := by
      rw [slots_build, if_pos rfl]
    exact ⟨_, hinit, hagenda, hmeeting _ (h.counted.build hv hfresh) hbuilt⟩
  · exact ⟨_, hinit, hagenda, hmeeting _ h.counted hlive⟩
  · exact absurd ((h.counted.emptied_iff v.id).mp hgone) (h.waiting v.id hin)

/-- A visit adds the contacts of its center, and counts them. -/
theorem Surveyed.visit {w w' : Walk (List (Operation S)) ClusterList} {farthest : Option ItemId}
    (h : e.Surveyed order w) (hv : (v, true) ∈ e.items) (hin : v.id ∈ w.pending)
    (hvisit : e.group.visit (recording e.apart) w v.id = (w', .ok farthest)) :
    e.Surveyed (order ++ [v.id]) w' := by
  have hvalue := e.stored.primary_eq_some.mpr ⟨hv, rfl⟩
  obtain ⟨index, hinit, ha, hstart⟩ := h.enter hv hin
  rcases e.group.visit_cases _ hvalue hvisit with
    ⟨lists, hi, -⟩ | ⟨lists, list, s, hi, hscan, hf, -⟩
  · rw [hinit] at hi
    cases hi
  rw [hinit] at hi
  cases hi
  have hmet := e.group.scan_invariant (recording e.apart)
    (I := fun seen t => t.walk.pending = w.pending.erase v.id ∧
      e.Meeting order v.id (w.pending.erase v.id) seen t.walk.lists)
    (e.group.neighbors v.id) (fun seen n rest t t' hsplit ht hc => by
      have hnodup := e.group.neighbors_nodup v.id
      rw [hsplit, List.nodup_append] at hnodup
      -- Neighbours are listed once, so the next one was not met.
      have hnew : n ∉ seen := fun hseen => hnodup.2.2 n hseen n List.mem_cons_self rfl
      have hn : n ∈ e.group.neighbors v.id := by
        rw [hsplit]
        exact List.mem_append_right _ List.mem_cons_self
      exact ⟨(consider_pending hc).1.trans ht.1, ht.2.consider ha hv rfl hn hnew ht.1 hc⟩)
    ⟨rfl, hstart⟩ hscan
  obtain ⟨hpending, hmeeting⟩ := hmet
  obtain ⟨R, hcounted, hR⟩ := hmeeting.counted
  have hcontact : R = contact e.config e.place e.items (order ++ [v.id]) := by
    funext p q
    rw [Bool.eq_iff_iff, hR, inContact_neighbors ha hv rfl]
  rw [finish_eq, handOver_of_live hmeeting.opened] at hf
  cases hf
  have hend := hcounted.conclude hmeeting.opened
  rw [hcontact] at hend
  show e.Surveyed _ ⟨Clustering.conclude e.apart v.id s.walk.lists, s.walk.pending⟩
  rw [hpending]
  exact ⟨ha.leave.1, ha.leave.2, hend⟩

namespace Surveyed

variable {w : Walk (List (Operation S)) ClusterList} {a : ClusterItem S}

theorem mem_order (h : e.Surveyed order w) (hend : ∀ id, id ∉ w.pending) {id : ItemId} :
    id ∈ order ↔ IsPrimary e.items id := by
  rw [h.primary]
  exact ⟨Or.inl, fun hid => hid.resolve_right (hend id)⟩

/-- The cluster of a primary counts what the primary counts for with those adjacent to it. -/
theorem single (h : e.Surveyed order w) (hend : ∀ id, id ∉ w.pending) (ha : (a, true) ∈ e.items)
    (hfits : a.count + adjacentCount e.config e.place e.items order a ≤ largestCount)
    {c : ClusterId} (hc : (e.singles w.lists.shared).clusterOf a.id = some c) :
    (e.singles w.lists.shared).members c = [a.id] ∧ (e.singles w.lists.shared).isLive c = true ∧
      (e.singles w.lists.shared).size c =
        a.count + adjacentCount e.config e.place e.items order a := by
  obtain ⟨hmembers, hcounted⟩ := h.counted.tally.alone a.id c hc
  have hin : a.id ∈ order := (h.mem_order hend).mpr ⟨a, ha, rfl⟩
  have hmass : e.survey.mass (contact e.config e.place e.items order) a.id =
      a.count + adjacentCount e.config e.place e.items order a :=
    mass_survey e.distinct e.positive ha hin
  obtain ⟨hlive, hsize⟩ := hcounted (hmass.symm ▸ hfits)
  exact ⟨hmembers, hlive, hsize.trans hmass⟩

/-- A core primary is no noise. -/
theorem exists_owner (h : e.Surveyed order w) (hend : ∀ id, id ∉ w.pending)
    (ha : (a, true) ∈ e.items)
    (hfits : a.count + adjacentCount e.config e.place e.items order a ≤ largestCount)
    (hcore : IsCore e.config e.place e.items order a) :
    ∃ c, (e.singles w.lists.shared).clusterOf a.id = some c := by
  refine Option.ne_none_iff_exists'.mp fun hnone => ?_
  have hin : a.id ∈ order := (h.mem_order hend).mpr ⟨a, ha, rfl⟩
  have hmass : e.survey.mass (contact e.config e.place e.items order) a.id =
      a.count + adjacentCount e.config e.place e.items order a :=
    mass_survey e.distinct e.positive ha hin
  have hnoise : e.survey.mass (contact e.config e.place e.items order) a.id < e.config.minOwners :=
    h.counted.tally.noise a.id hin hnone (hmass.symm ▸ hfits)
  unfold IsCore at hcore
  omega

end Surveyed

end Setting

end Clustering

end DensityClustering
