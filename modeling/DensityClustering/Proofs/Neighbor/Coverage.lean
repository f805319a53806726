import Mathlib.Data.List.Perm.Subperm
import DensityClustering.Proofs.Neighbor.Deeds

/-!
Who is visited when lists are free to answer and to accept what they like: every primary is, exactly
once, unless the list of a visited center drops it, and then nothing is done with it any more.
-/

namespace DensityClustering

open Std (ExtTreeSet)

namespace Group

variable {V σ C L : Type} {g : Group V} {c : Collaborators σ V C L} {center : ItemId}

variable (g) in
/-- The ids that wait are primaries whose lists were not emptied. -/
structure Ready (w : Walk σ L) : Prop where
  primary : ∀ id ∈ w.pending, (g.index.primary id).isSome = true
  unused : ∀ id ∈ w.pending, w.lists.slots[id]? ≠ some Slot.emptied

/-- A center was visited. -/
structure Handed (g : Group V) (w : Walk σ L) (center : ItemId) (deeds : List (Deed L))
    (after : Walk σ L) : Prop where
  ready : g.Ready after
  pending : ∀ id, id ∈ after.pending ↔
    id ∈ w.pending ∧ id ≠ center ∧ .answered center id .remove ∉ deeds
  about : ∀ d ∈ deeds, ∀ p ∈ d.parties, (g.index.primary p).isSome = true → p ∈ w.pending
  asked : ∀ a p answer, .answered a p answer ∈ deeds → a = center ∧ p ≠ center
  apart : deeds.Pairwise g.Apart
  events : dealings after.lists.journal.reverse =
    dealings w.lists.journal.reverse ++ deeds.filterMap Deed.event
  handed : ∃ list, (deeds.filterMap Deed.event).filterMap Event.handed = [(center, list)]

/-- A visit of an id that waits hands it over. -/
theorem Ready.visit {w after : Walk σ L} {farthest : Option ItemId} (hready : g.Ready w)
    (hmem : center ∈ w.pending) (h : g.visit c w center = (after, .ok farthest)) :
    Handed g w center (g.visitDeeds c w center) after := by
  obtain ⟨lists, said, s, kept, shared, hdeeds, hbefore, hothers, hdealt, hafter⟩ :=
    dealt_visit (hready.primary center hmem) (hready.unused center hmem) h
  have hcenter : center ∉ g.neighbors center := fun hc => (g.mem_neighbors.mp hc).1 rfl
  have hwaits (id : ItemId) : id ∈ w.pending.erase center ↔ id ≠ center ∧ id ∈ w.pending := by
    rw [ExtTreeSet.mem_erase, Ne, Std.LawfulEqCmp.compare_eq_iff_eq, eq_comm]
  have hpending (id : ItemId) : id ∈ s.walk.pending ↔
      id ∈ w.pending ∧ id ≠ center ∧ .answered center id .remove ∉ said := by
    rw [hdealt.pending, hwaits, and_comm (a := id ≠ center), and_assoc]
  have hunanswered (a p : ItemId) (answer : Inference) :
      .answered a p answer ∈ said ++ [Deed.notified center kept] ↔
        .answered a p answer ∈ said := by
    rw [List.mem_append, or_iff_left]
    intro hd
    cases List.mem_singleton.mp hd
  rw [hdeeds]
  refine ⟨⟨fun id hid => ?_, fun id hid => ?_⟩, fun id => ?_, fun d hd p hp hprimary => ?_,
    fun a p answer hd => ?_, ?_, ?_, ⟨kept, ?_⟩⟩
  · rw [hafter] at hid
    exact hready.primary id ((hpending id).mp hid).1
  · rw [hafter] at hid ⊢
    obtain ⟨hid, hne, -⟩ := (hpending id).mp hid
    rw [NeighborIndex.slots_empty, if_neg hne]
    show ¬s.walk.lists.slots[id]? = some Slot.emptied
    rw [hdealt.emptied]
    show ¬lists.slots[id]? = some Slot.emptied
    rw [hothers id hne]
    exact hready.unused id hid
  · rw [hunanswered, hafter]
    exact hpending id
  · rcases List.mem_append.mp hd with hd | hd
    · rcases hdealt.about d hd p hp with hpc | ⟨-, hstill⟩
      · rw [hpc]
        exact hmem
      · exact ((hwaits p).mp (hstill hprimary)).2
    · rw [List.mem_singleton.mp hd] at hp
      rw [List.mem_singleton.mp hp]
      exact hmem
  · obtain ⟨ha, hp⟩ := hdealt.asked a p answer ((hunanswered a p answer).mp hd)
    exact ⟨ha, fun hpc => hcenter (hpc ▸ hp)⟩
  -- apart: the center is no neighbour of its own
  · refine List.pairwise_append.mpr ⟨hdealt.apart, List.pairwise_singleton .., ?_⟩
    intro d hd e he a p hdrop hprimary hp
    rw [hdrop] at hd
    rw [List.mem_singleton.mp he] at hp
    exact hcenter (List.mem_singleton.mp hp ▸ (hdealt.asked a p .remove hd).2)
  · rw [hafter]
    show dealings (Event.completed center kept :: s.walk.lists.journal).reverse = _
    rw [List.reverse_cons, dealings_append, hdealt.events, hbefore, List.filterMap_append,
      List.append_assoc]
    rfl
  · rw [List.filterMap_append, List.filterMap_append, hdealt.handed]
    rfl

/-- All that waited at the start of a tour was handed over once, unless it was dropped. -/
structure Covered (g : Group V) (c : Collaborators σ V C L) (w : Walk σ L)
    (stops : List (Walk σ L × ItemId)) (after : Walk σ L) : Prop where
  distinct : (stops.map Prod.snd).Nodup
  waited : ∀ id ∈ stops.map Prod.snd, id ∈ w.pending
  dropped : ∀ p ∈ w.pending, p ∉ stops.map Prod.snd ↔
    ∃ center, .answered center p .remove ∈ g.deeds c stops
  asked : ∀ a p answer, .answered a p answer ∈ g.deeds c stops → a ∈ stops.map Prod.snd
  about : ∀ d ∈ g.deeds c stops, ∀ p ∈ d.parties,
    (g.index.primary p).isSome = true → p ∈ w.pending
  apart : (g.deeds c stops).Pairwise g.Apart
  events : dealings after.lists.journal.reverse =
    dealings w.lists.journal.reverse ++ (g.deeds c stops).filterMap Deed.event
  handed : (((g.deeds c stops).filterMap Deed.event).filterMap Event.handed).map Prod.fst =
    stops.map Prod.snd

/-- What is handed over, and then covers the rest, covers all. -/
theorem Covered.cons {w between after : Walk σ L} {stops : List (Walk σ L × ItemId)}
    (hready : g.Ready w) (hmem : center ∈ w.pending)
    (h : Handed g w center (g.visitDeeds c w center) between)
    (hrest : Covered g c between stops after) : Covered g c w ((w, center) :: stops) after := by
  have hdeeds : g.deeds c ((w, center) :: stops) = g.visitDeeds c w center ++ g.deeds c stops :=
    List.flatMap_cons
  have hlater (id : ItemId) (hid : id ∈ stops.map Prod.snd) : id ∈ w.pending ∧ id ≠ center := by
    obtain ⟨hw, hne, -⟩ := (h.pending id).mp (hrest.waited id hid)
    exact ⟨hw, hne⟩
  refine ⟨?_, fun id hid => ?_, fun p hp => ?_, fun a p answer hd => ?_,
    fun d hd p hp hprimary => ?_, ?_, ?_, ?_⟩
  · rw [List.map_cons, List.nodup_cons]
    exact ⟨fun hc => (hlater center hc).2 rfl, hrest.distinct⟩
  · rw [List.map_cons] at hid
    rcases List.mem_cons.mp hid with hid | hid
    · rw [hid]
      exact hmem
    · exact (hlater id hid).1
  · rw [hdeeds, List.map_cons, List.mem_cons, not_or]
    constructor
    · intro hno
      by_cases hnow : .answered center p .remove ∈ g.visitDeeds c w center
      · exact ⟨center, List.mem_append_left _ hnow⟩
      · have hstill : p ∈ between.pending := (h.pending p).mpr ⟨hp, hno.1, hnow⟩
        obtain ⟨a, hlast⟩ := (hrest.dropped p hstill).mp hno.2
        exact ⟨a, List.mem_append_right _ hlast⟩
    · intro hdrop
      obtain ⟨a, hd⟩ := hdrop
      rcases List.mem_append.mp hd with hd | hd
      · -- Dropped by this center, so that it no longer waits.
        obtain ⟨ha, hne⟩ := h.asked a p .remove hd
        refine ⟨hne, fun hlast => ?_⟩
        rw [ha] at hd
        exact ((h.pending p).mp (hrest.waited p hlast)).2.2 hd
      · have hstill : p ∈ between.pending :=
          hrest.about _ hd p (List.mem_cons_of_mem _ List.mem_cons_self) (hready.primary p hp)
        exact ⟨((h.pending p).mp hstill).2.1, (hrest.dropped p hstill).mpr ⟨a, hd⟩⟩
  · rw [hdeeds] at hd
    rw [List.map_cons]
    rcases List.mem_append.mp hd with hd | hd
    · rw [(h.asked a p answer hd).1]
      exact List.mem_cons_self
    · exact List.mem_cons_of_mem _ (hrest.asked a p answer hd)
  · rw [hdeeds] at hd
    rcases List.mem_append.mp hd with hd | hd
    · exact h.about d hd p hp hprimary
    · exact ((h.pending p).mp (hrest.about d hd p hp hprimary)).1
  -- apart: what a visit drops does not come up again
  · rw [hdeeds]
    refine List.pairwise_append.mpr ⟨h.apart, hrest.apart, ?_⟩
    intro d hd e he a p hdrop hprimary hp
    rw [hdrop] at hd
    rw [(h.asked a p .remove hd).1] at hd
    exact ((h.pending p).mp (hrest.about e he p hp hprimary)).2.2 hd
  · rw [hdeeds, hrest.events, h.events, List.filterMap_append, List.append_assoc]
  · obtain ⟨list, hone⟩ := h.handed
    rw [hdeeds, List.filterMap_append, List.filterMap_append, hone, List.map_append, hrest.handed]
    rfl

/-- A tour that does not fail covers whatever waited at its start. -/
theorem Tour.covered {w after : Walk σ L} {next : Option ItemId}
    {stops : List (Walk σ L × ItemId)} (h : Tour g c w next stops after none)
    (hready : g.Ready w) (hnext : ∀ id, next = some id → id ∈ w.pending) :
    Covered g c w stops after := by
  generalize hnone : (none : Option (ItemId × TraversalCause)) = failure at h
  induction h with
  | @arrived w next hnothing =>
    rw [Option.or_eq_none_iff] at hnothing
    have hempty : ∀ id, id ∉ w.pending := smallest_eq_none hnothing.2
    refine ⟨List.nodup_nil, ?_, fun p hp => absurd hp (hempty p), ?_, ?_, List.Pairwise.nil,
      (List.append_nil _).symm, rfl⟩
    · simp
    · simp [deeds]
    · simp [deeds]
  | stopped => cases hnone
  | @onward w between after next farthest center stops failure hchosen hvisited _ ih =>
    have hmem : center ∈ w.pending := mem_of_next hnext hchosen
    have hhanded := hready.visit hmem hvisited
    exact (ih hhanded.ready (g.farthest_waits c hvisited) hnone).cons hready hmem hhanded

/-- At the start of a traversal no list was emptied yet. -/
theorem ready_departure (shared : σ) : g.Ready (g.departure shared : Walk σ L) := by
  refine ⟨fun id hid => mem_departure.mp hid, fun id _ => ?_⟩
  show (∅ : Std.ExtTreeMap ItemId (Slot L))[id]? ≠ _
  rw [Std.ExtTreeMap.getElem?_empty]
  exact nofun

/-- When neither distances nor completions fail, a traversal ends after at most as many visits as
there are primaries. Whatever the lists answer, only primaries are handed over, none of them twice;
one is not handed over exactly if the list of a visited center drops it, and from then on it is
neither asked about, measured, offered nor handed over. -/
theorem traverse_covers_primaries (g : Group V) (c : Collaborators σ V C L) (shared : σ)
    (hmeasure : ∀ a b s, ∃ profile, (c.measure a b s).1 = .ok profile)
    (hcomplete : ∀ id v l s, (c.complete id v l s).1 = .ok ()) :
    ∃ stops after, Tour g c (g.departure shared) g.startingPoint stops after none ∧
      g.traverse c shared = ⟨after.lists.shared, after.lists.journal.reverse, none⟩ ∧
      stops.length ≤ g.index.primaryCount ∧
      dealings (g.traverse c shared).journal = (g.deeds c stops).filterMap Deed.event ∧
      ((g.traverse c shared).notified.map Prod.fst).Nodup ∧
      (∀ id ∈ (g.traverse c shared).notified.map Prod.fst, (g.index.primary id).isSome = true) ∧
      (∀ p, (g.index.primary p).isSome = true →
        (p ∉ (g.traverse c shared).notified.map Prod.fst ↔
          ∃ center ∈ (g.traverse c shared).notified.map Prod.fst,
            .answered center p .remove ∈ g.deeds c stops)) ∧
      ∀ before center p after, g.deeds c stops = before ++ .answered center p .remove :: after →
        (g.index.primary p).isSome = true → ∀ d ∈ after, p ∉ d.parties := by
  obtain ⟨stops, after, failure, htour, htraverse⟩ :=
    exists_tour_of_traverse (g := g) (c := c) shared
  have hfailure : failure = none := htour.failure_eq_none hmeasure hcomplete
  rw [hfailure] at htour htraverse
  have hcovered : Covered g c (g.departure shared) stops after :=
    htour.covered (ready_departure shared) (g.startingPoint_waits shared)
  have hevents : dealings (g.traverse c shared).journal =
      (g.deeds c stops).filterMap Deed.event := by
    rw [htraverse]
    exact hcovered.events
  have hnotified : (g.traverse c shared).notified.map Prod.fst = stops.map Prod.snd := by
    rw [← hcovered.handed, ← hevents, filterMap_handed_dealings]
    rfl
  refine ⟨stops, after, htour, htraverse, ?_, hevents, ?_, ?_, ?_, ?_⟩
  · have hsubset : stops.map Prod.snd ⊆ g.index.primaryIds := by
      intro id hid
      exact (PartitionIndex.mem_primaryIds ..).mpr (mem_departure.mp (hcovered.waited id hid))
    have hlength : (stops.map Prod.snd).length ≤ g.index.primaryIds.length :=
      (List.subperm_of_subset hcovered.distinct hsubset).length_le
    rwa [List.length_map, PartitionIndex.primaryIds, Std.ExtTreeMap.length_keys] at hlength
  · rw [hnotified]
    exact hcovered.distinct
  · rw [hnotified]
    exact fun id hid => mem_departure.mp (hcovered.waited id hid)
  · intro p hp
    rw [hnotified, hcovered.dropped p (mem_departure.mpr hp)]
    constructor
    · intro hdrop
      obtain ⟨a, hd⟩ := hdrop
      exact ⟨a, hcovered.asked a p .remove hd, hd⟩
    · intro hdrop
      obtain ⟨a, -, hd⟩ := hdrop
      exact ⟨a, hd⟩
  · intro before center p later hsplit hp d hd
    have hapart := hcovered.apart
    rw [hsplit] at hapart
    obtain ⟨-, hapart, -⟩ := List.pairwise_append.mp hapart
    exact (List.pairwise_cons.mp hapart).1 d hd center p rfl hp

/-- Lists that drop one id, and points that are all equally far from each other. -/
def dropping (dropped : ItemId) : Collaborators Unit Unit Unit Unit where
  lists := {
    build := fun _ _ s => ((), s)
    add := fun l _ _ _ s => (true, l, s)
    infer := fun _ id _ _ => if id = dropped then .remove else .none }
  measure _ _ s := (.ok ⟨1, ()⟩, s)
  complete _ _ _ s := (.ok (), s)

/-- Primaries in one cell. -/
def huddle (ids : List ItemId) : Group Unit :=
  ids.foldl (fun g id => g.tryAdd ⟨fun _ _ => .ok (), fun _ => ⟨[⟨⟨[0]⟩, true⟩], none⟩⟩ id true ())
    (.empty 1 ⟨⟨[0]⟩, true⟩)

theorem huddle_covered_but_for_dropped :
    ((huddle [⟨[0]⟩, ⟨[1]⟩, ⟨[2]⟩]).traverse (dropping ⟨[1]⟩) ()).notified.map Prod.fst =
      [⟨[0]⟩, ⟨[2]⟩] ∧
    ∃ stops after, Tour (huddle [⟨[0]⟩, ⟨[1]⟩, ⟨[2]⟩]) (dropping ⟨[1]⟩)
      ((huddle [⟨[0]⟩, ⟨[1]⟩, ⟨[2]⟩]).departure ())
      (huddle [⟨[0]⟩, ⟨[1]⟩, ⟨[2]⟩]).startingPoint stops after none ∧
      ∃ center, .answered center ⟨[1]⟩ .remove ∈
        (huddle [⟨[0]⟩, ⟨[1]⟩, ⟨[2]⟩]).deeds (dropping ⟨[1]⟩) stops := by
  have hnotified : ((huddle [⟨[0]⟩, ⟨[1]⟩, ⟨[2]⟩]).traverse (dropping ⟨[1]⟩) ()).notified.map
      Prod.fst = [⟨[0]⟩, ⟨[2]⟩] := by decide +kernel
  obtain ⟨stops, after, htour, -, -, -, -, -, hdropped, -⟩ :=
    traverse_covers_primaries (huddle [⟨[0]⟩, ⟨[1]⟩, ⟨[2]⟩]) (dropping ⟨[1]⟩) ()
      (fun _ _ _ => ⟨⟨1, ()⟩, rfl⟩) (fun _ _ _ _ => rfl)
  have hprimary : ((huddle [⟨[0]⟩, ⟨[1]⟩, ⟨[2]⟩]).index.primary ⟨[1]⟩).isSome = true := by
    decide +kernel
  obtain ⟨center, -, hd⟩ := (hdropped ⟨[1]⟩ hprimary).mp (by rw [hnotified]; decide)
  exact ⟨hnotified, stops, after, htour, center, hd⟩

end Group

end DensityClustering
