import Mathlib.Data.List.Pairwise
import DensityClustering.Proofs.Neighbor.Tour

/-!
What a traversal does to each id, answers and offers included. The journal tells only of lists that
were built or handed over and of distances; here is also what lists were asked and offered.
-/

namespace DensityClustering

open Std (ExtTreeSet)

/-- Something a traversal did. -/
inductive Deed (L : Type) where
  /-- The list of a center was asked about a neighbour. -/
  | answered (center neighbor : ItemId) (answer : Inference)
  | measured (center neighbor : ItemId)
  /-- The list of the first id was offered the second one. -/
  | offered (holder id : ItemId)
  | notified (center : ItemId) (list : L)

namespace Deed

variable {L : Type}

/-- The ids that it is about. -/
def parties : Deed L → List ItemId
  | answered center neighbor _ => [center, neighbor]
  | measured center neighbor => [center, neighbor]
  | offered holder id => [holder, id]
  | notified center _ => [center]

/-- What the journal says about it. -/
def event : Deed L → Option (Event L)
  | answered _ _ _ => none
  | measured center neighbor => some (.measured center neighbor)
  | offered _ _ => none
  | notified center list => some (.completed center list)

end Deed

/-- The journal without the lists that were built. -/
def dealings {L : Type} (journal : List (Event L)) : List (Event L) :=
  journal.filter fun
    | .built _ => false
    | _ => true

/-- A center that was handed over, with its list. -/
def Event.handed {L : Type} : Event L → Option (ItemId × L)
  | built _ => none
  | measured _ _ => none
  | completed center list => some (center, list)

/-- The centers that were handed over with their lists, in order. -/
def Outcome.notified {σ L : Type} (o : Outcome σ L) : List (ItemId × L) :=
  o.journal.filterMap Event.handed

theorem filterMap_handed_dealings {L : Type} (journal : List (Event L)) :
    (dealings journal).filterMap Event.handed = journal.filterMap Event.handed := by
  induction journal with
  | nil => rfl
  | cons e journal ih =>
    cases e with
    | built center => exact ih
    | measured center neighbor => exact ih
    | completed center list => exact congrArg ((center, list) :: ·) ih

theorem dealings_append {L : Type} (journal rest : List (Event L)) :
    dealings (journal ++ rest) = dealings journal ++ dealings rest :=
  List.filter_append ..

namespace NeighborIndex

variable {σ V C L : Type} (kind : ListKind σ V C L) (index : NeighborIndex σ L)

theorem dealings_init (id : ItemId) (v : V) :
    dealings (index.init kind id v).1.journal.reverse = dealings index.journal.reverse := by
  cases hslot : index.slots[id]? with
  | none =>
    rw [init_of_none kind index v hslot]
    show dealings (.built id :: index.journal).reverse = _
    rw [List.reverse_cons, dealings_append]
    exact List.append_nil _
  | some slot =>
    cases slot with
    | live list => rw [init_of_live kind v hslot]
    | emptied => rw [init_of_emptied kind v hslot]

/-- An offer builds lists at most. -/
theorem dealings_offer (profile : DistanceProfile C) (id : ItemId) (v : V) (t : ItemId) (u : V) :
    dealings (index.offer kind profile id v t u).1.journal.reverse =
      dealings index.journal.reverse := by
  rw [← dealings_init kind index id v]
  unfold offer
  cases index.init kind id v with
  | mk index' list =>
    cases list with
    | none => rfl
    | some list => rfl

end NeighborIndex

namespace Group

variable {V σ C L : Type} (g : Group V) (c : Collaborators σ V C L) (center : ItemId) (value : V)

/-- What is done with one neighbour of a center. -/
def considerDeeds (neighbor : ItemId) (s : Scan σ L) : List (Deed L) :=
  match g.candidate s.walk.pending neighbor with
  | none => []
  | some (v, primary) =>
    let answer := s.walk.lists.infer c.lists center neighbor v
    .answered center neighbor answer ::
      if answer = .none then
        .measured center neighbor ::
          match (c.measure value v s.walk.lists.shared).1 with
          | .error _ => []
          | .ok profile =>
            if profile.distance ≤ g.maxDistance then
              .offered center neighbor :: if primary then [.offered neighbor center] else []
            else []
      else []

def scanDeeds : List ItemId → Scan σ L → List (Deed L)
  | [], _ => []
  | neighbor :: rest, s =>
    g.considerDeeds c center value neighbor s ++
      match g.consider c center value neighbor s with
      | (_, some _) => []
      | (s, none) => scanDeeds rest s

def visitDeeds (w : Walk σ L) (center : ItemId) : List (Deed L) :=
  match g.index.primary center with
  | none => []
  | some value =>
    match w.lists.init c.lists center value with
    | (_, none) => []
    | (lists, some _) =>
      let start : Scan σ L := ⟨⟨lists, w.pending.erase center⟩, 0, none⟩
      g.scanDeeds c center value (g.neighbors center) start ++
        match g.scan c center value (g.neighbors center) start with
        | (_, some _) => []
        | (s, none) => ((s.walk.lists.find center).map (Deed.notified center)).toList

/-- What is done in a tour. -/
def deeds (stops : List (Walk σ L × ItemId)) : List (Deed L) :=
  stops.flatMap fun stop => g.visitDeeds c stop.1 stop.2

/-- Once the list of a center dropped a primary, the later deed is not about that one. -/
def Apart (d e : Deed L) : Prop :=
  ∀ center p, d = .answered center p .remove → (g.index.primary p).isSome = true → p ∉ e.parties

variable {g c center value}

section Consider

variable {neighbor : ItemId} {s s' : Scan σ L}

/-- The list of the center is asked first, and only if it does not mind, there is more to do. -/
theorem considerDeeds_eq {v : V} {primary : Bool}
    (h : g.candidate s.walk.pending neighbor = some (v, primary)) :
    ∃ offers : List (Deed L),
      (∀ d ∈ offers, d = .offered center neighbor ∨ d = .offered neighbor center) ∧
      g.considerDeeds c center value neighbor s =
        .answered center neighbor (s.walk.lists.infer c.lists center neighbor v) ::
          if s.walk.lists.infer c.lists center neighbor v = .none then
            .measured center neighbor :: offers
          else [] := by
  unfold considerDeeds
  rw [h]
  refine ⟨_, fun d hd => ?_, rfl⟩
  split at hd
  · cases hd
  · split at hd
    · rcases List.mem_cons.mp hd with hd | hd
      · exact Or.inl hd
      · split at hd
        · exact Or.inr (List.mem_singleton.mp hd)
        · cases hd
    · cases hd

theorem considerDeeds_eq_nil (h : g.candidate s.walk.pending neighbor = none) :
    g.considerDeeds c center value neighbor s = [] := by
  unfold considerDeeds
  rw [h]

theorem mem_considerDeeds {d : Deed L} (h : d ∈ g.considerDeeds c center value neighbor s) :
    ∃ v primary, g.candidate s.walk.pending neighbor = some (v, primary) ∧
      (d = .answered center neighbor (s.walk.lists.infer c.lists center neighbor v) ∨
        d = .measured center neighbor ∨ d = .offered center neighbor ∨
        d = .offered neighbor center) := by
  cases hcandidate : g.candidate s.walk.pending neighbor with
  | none =>
    rw [considerDeeds_eq_nil hcandidate] at h
    cases h
  | some found =>
    refine ⟨found.1, found.2, rfl, ?_⟩
    obtain ⟨offers, hoffers, hdeeds⟩ : ∃ offers : List (Deed L), _ ∧ _ :=
      considerDeeds_eq hcandidate
    rw [hdeeds] at h
    rcases List.mem_cons.mp h with h | h
    · exact Or.inl h
    · split at h
      · exact Or.inr ((List.mem_cons.mp h).imp_right (hoffers d))
      · cases h

theorem parties_of_mem_considerDeeds {d : Deed L} {p : ItemId}
    (h : d ∈ g.considerDeeds c center value neighbor s) (hp : p ∈ d.parties) :
    p = center ∨ p = neighbor := by
  obtain ⟨v, primary, -, hd | hd | hd | hd⟩ := mem_considerDeeds h
  · rw [hd] at hp
    simpa [Deed.parties] using hp
  · rw [hd] at hp
    simpa [Deed.parties] using hp
  · rw [hd] at hp
    simpa [Deed.parties] using hp
  · rw [hd] at hp
    simpa [Deed.parties, or_comm] using hp

/-- A primary that comes up still waits. -/
theorem mem_pending_of_mem_considerDeeds {d : Deed L}
    (h : d ∈ g.considerDeeds c center value neighbor s)
    (hprimary : (g.index.primary neighbor).isSome = true) : neighbor ∈ s.walk.pending := by
  obtain ⟨v, primary, hcandidate, -⟩ := mem_considerDeeds h
  obtain ⟨w, hw⟩ := Option.isSome_iff_exists.mp hprimary
  unfold candidate at hcandidate
  rw [hw] at hcandidate
  by_contra hno
  simp [hno] at hcandidate

theorem answered_mem_considerDeeds {a p : ItemId} {answer : Inference} :
    .answered a p answer ∈ g.considerDeeds c center value neighbor s ↔
      a = center ∧ p = neighbor ∧ ∃ v primary,
        g.candidate s.walk.pending neighbor = some (v, primary) ∧
        s.walk.lists.infer c.lists center neighbor v = answer := by
  constructor
  · intro h
    obtain ⟨v, primary, hcandidate, hd | hd | hd | hd⟩ := mem_considerDeeds h
    · cases hd
      exact ⟨rfl, rfl, v, primary, hcandidate, rfl⟩
    · cases hd
    · cases hd
    · cases hd
  · intro h
    obtain ⟨ha, hp, v, primary, hcandidate, hanswer⟩ := h
    obtain ⟨offers, -, hdeeds⟩ : ∃ offers : List (Deed L), _ ∧ _ := considerDeeds_eq hcandidate
    rw [hdeeds, ha, hp, hanswer]
    exact List.mem_cons_self

/-- Nothing is done with a neighbour that was dropped. -/
theorem pairwise_considerDeeds :
    (g.considerDeeds c center value neighbor s).Pairwise g.Apart := by
  cases hcandidate : g.candidate s.walk.pending neighbor with
  | none =>
    rw [considerDeeds_eq_nil hcandidate]
    exact List.Pairwise.nil
  | some found =>
    obtain ⟨offers, hoffers, hdeeds⟩ : ∃ offers : List (Deed L), _ ∧ _ :=
      considerDeeds_eq hcandidate
    rw [hdeeds]
    by_cases hnone : s.walk.lists.infer c.lists center neighbor found.1 = .none
    · -- The list did not mind, so nothing was dropped.
      rw [if_pos hnone, hnone]
      refine List.pairwise_of_forall_mem_list fun d hd e he a p hdrop => ?_
      rw [hdrop] at hd
      rcases List.mem_cons.mp hd with hd | hd
      · cases hd
      · rcases List.mem_cons.mp hd with hd | hd
        · cases hd
        · rcases hoffers _ hd with hd | hd
          · cases hd
          · cases hd
    · rw [if_neg hnone]
      exact List.pairwise_singleton ..

/-- The journal tells of the measurement. -/
theorem dealings_consider (h : g.consider c center value neighbor s = (s', none)) :
    dealings s'.walk.lists.journal.reverse = dealings s.walk.lists.journal.reverse ++
      (g.considerDeeds c center value neighbor s).filterMap Deed.event := by
  rcases g.consider_cases c h with ⟨hs', hcandidate⟩ | ⟨v, primary, hcandidate, hcase⟩
  · rw [hs', considerDeeds_eq_nil hcandidate]
    exact (List.append_nil _).symm
  · obtain ⟨offers, hoffers, hdeeds⟩ : ∃ offers : List (Deed L), _ ∧ _ :=
      considerDeeds_eq hcandidate
    rw [hdeeds, List.filterMap_cons_none rfl]
    rcases hcase with ⟨hs', hskip⟩ | ⟨hs', hremove⟩ | ⟨profile, shared, hnone, -, -, hlists, -⟩
    · rw [hs', hskip]
      exact (List.append_nil _).symm
    · rw [hs', hremove]
      exact (List.append_nil _).symm
    · have hunseen : offers.filterMap Deed.event = [] := by
        refine List.filterMap_eq_nil_iff.mpr fun d hd => ?_
        rcases hoffers d hd with hd | hd
        · rw [hd]
          rfl
        · rw [hd]
          rfl
      have hnoted : dealings ({ s.walk.lists with shared := shared }.note
          (.measured center neighbor)).journal.reverse =
          dealings s.walk.lists.journal.reverse ++ [.measured center neighbor] := by
        show dealings (Event.measured center neighbor :: s.walk.lists.journal).reverse = _
        rw [List.reverse_cons, dealings_append]
        rfl
      have hadded : dealings s'.walk.lists.journal.reverse =
          dealings s.walk.lists.journal.reverse ++ [.measured center neighbor] := by
        rw [hlists]
        split
        · exact NeighborIndex.add_of_offer c.lists
            (I := fun index => dealings index.journal.reverse =
              dealings s.walk.lists.journal.reverse ++ [.measured center neighbor])
            (fun index id v t u hi => (index.dealings_offer c.lists profile id v t u).trans hi)
            primary hnoted
        · exact hnoted
      have hseen : (Deed.measured center neighbor :: offers).filterMap Deed.event =
          [.measured center neighbor] := congrArg (Event.measured center neighbor :: ·) hunseen
      rw [hadded, if_pos hnone, hseen]

end Consider

/-- Some neighbours of a center were dealt with. -/
structure Dealt (g : Group V) (center : ItemId) (neighbors : List ItemId) (s : Scan σ L)
    (deeds : List (Deed L)) (s' : Scan σ L) : Prop where
  pending : ∀ id, id ∈ s'.walk.pending ↔
    id ∈ s.walk.pending ∧ .answered center id .remove ∉ deeds
  about : ∀ d ∈ deeds, ∀ p ∈ d.parties, p = center ∨
    (p ∈ neighbors ∧ ((g.index.primary p).isSome = true → p ∈ s.walk.pending))
  asked : ∀ a p answer, .answered a p answer ∈ deeds → a = center ∧ p ∈ neighbors
  quiet : ∀ id list, .notified id list ∉ deeds
  apart : deeds.Pairwise g.Apart
  events : dealings s'.walk.lists.journal.reverse =
    dealings s.walk.lists.journal.reverse ++ deeds.filterMap Deed.event
  emptied : ∀ id : ItemId, s'.walk.lists.slots[id]? = some Slot.emptied ↔
    s.walk.lists.slots[id]? = some Slot.emptied
  found : s.walk.lists.find center ≠ none → s'.walk.lists.find center ≠ none

namespace Dealt

variable {ns ns' : List ItemId} {s s' s'' : Scan σ L} {deeds deeds' : List (Deed L)}

theorem nil (s : Scan σ L) : Dealt g center [] s [] s := by
  refine ⟨?_, ?_, ?_, ?_, List.Pairwise.nil, ?_, fun _ => Iff.rfl, id⟩
  · simp
  · simp
  · simp
  · simp
  · simp

/-- Dealing with other neighbours then. -/
theorem append (h : Dealt g center ns s deeds s') (h' : Dealt g center ns' s' deeds' s'')
    (hcenter : center ∉ ns) (hdisjoint : ∀ n ∈ ns, n ∉ ns') :
    Dealt g center (ns ++ ns') s (deeds ++ deeds') s'' := by
  refine ⟨fun id => ?_, fun d hd p hp => ?_, fun a p answer hd => ?_, fun id list hd => ?_, ?_, ?_,
    fun id => (h'.emptied id).trans (h.emptied id), fun hfound => h'.found (h.found hfound)⟩
  · rw [h'.pending, h.pending, List.mem_append, not_or, and_assoc]
  · rcases List.mem_append.mp hd with hd | hd
    · rcases h.about d hd p hp with hpc | ⟨hn, hwaits⟩
      · exact Or.inl hpc
      · exact Or.inr ⟨List.mem_append_left _ hn, hwaits⟩
    · rcases h'.about d hd p hp with hpc | ⟨hn, hwaits⟩
      · exact Or.inl hpc
      · exact Or.inr ⟨List.mem_append_right _ hn, fun hprimary => ((h.pending p).mp
          (hwaits hprimary)).1⟩
  · rcases List.mem_append.mp hd with hd | hd
    · exact ⟨(h.asked a p answer hd).1, List.mem_append_left _ (h.asked a p answer hd).2⟩
    · exact ⟨(h'.asked a p answer hd).1, List.mem_append_right _ (h'.asked a p answer hd).2⟩
  · rcases List.mem_append.mp hd with hd | hd
    · exact h.quiet id list hd
    · exact h'.quiet id list hd
  -- apart: what was dropped is neither the center nor one of the later neighbours
  · refine List.pairwise_append.mpr ⟨h.apart, h'.apart, fun d hd e he a p hdrop hprimary hp => ?_⟩
    rw [hdrop] at hd
    have hn : p ∈ ns := (h.asked a p .remove hd).2
    rcases h'.about e he p hp with hpc | ⟨hn', -⟩
    · exact hcenter (hpc ▸ hn)
    · exact hdisjoint p hn hn'
  · rw [h'.events, h.events, List.filterMap_append, List.append_assoc]

/-- Nothing is handed over meanwhile. -/
theorem handed (h : Dealt g center ns s deeds s') :
    (deeds.filterMap Deed.event).filterMap Event.handed = [] := by
  rw [List.filterMap_filterMap, List.filterMap_eq_nil_iff]
  intro d hd
  cases d with
  | answered a p answer => rfl
  | measured a p => rfl
  | offered a p => rfl
  | notified a list => exact absurd hd (h.quiet a list)

end Dealt

/-- What is done with a neighbour fits what becomes of the walk. -/
theorem dealt_consider {neighbor : ItemId} {s s' : Scan σ L}
    (h : g.consider c center value neighbor s = (s', none)) :
    Dealt g center [neighbor] s (g.considerDeeds c center value neighbor s) s' := by
  refine ⟨fun id => ?_, fun d hd p hp => ?_, fun a p answer hd => ?_, fun id list hd => ?_,
    pairwise_considerDeeds, dealings_consider h, fun id => ?_, ?_⟩
  -- pending: a neighbour that is dropped no longer waits
  · rw [answered_mem_considerDeeds]
    rcases g.consider_cases c h with ⟨hs', hcandidate⟩ | ⟨v, primary, hcandidate, hcase⟩
    · rw [hs', hcandidate]
      simp
    · rw [hcandidate]
      rcases hcase with ⟨hs', hskip⟩ | ⟨hs', hremove⟩ | ⟨profile, shared, hnone, -, hpending, -⟩
      · rw [hs']
        simp [hskip]
      · rw [hs', ExtTreeSet.mem_erase, Ne, Std.LawfulEqCmp.compare_eq_iff_eq]
        simp [hremove, and_comm, eq_comm]
      · rw [hpending]
        simp [hnone]
  · rcases parties_of_mem_considerDeeds hd hp with hpc | hpn
    · exact Or.inl hpc
    · rw [hpn]
      exact Or.inr ⟨List.mem_singleton.mpr rfl, mem_pending_of_mem_considerDeeds hd⟩
  · obtain ⟨ha, hpn, -⟩ := answered_mem_considerDeeds.mp hd
    exact ⟨ha, List.mem_singleton.mpr hpn⟩
  · obtain ⟨v, primary, -, hd | hd | hd | hd⟩ := mem_considerDeeds hd
    · cases hd
    · cases hd
    · cases hd
    · cases hd
  · exact g.consider_keeps c
      (I := fun index => index.slots[id]? = some Slot.emptied ↔
        s.walk.lists.slots[id]? = some Slot.emptied)
      (fun _ _ hi => hi)
      (fun _ _ _ _ _ _ hi => (NeighborIndex.slots_offer_eq_emptied c.lists).trans hi) h Iff.rfl
  · exact g.consider_keeps c (I := fun index => index.find center ≠ none) (fun _ _ hi => hi)
      (fun _ _ _ _ _ _ hi => NeighborIndex.find_offer_ne_none c.lists hi) h

theorem dealt_scan {neighbors : List ItemId} (hnodup : neighbors.Nodup)
    (hcenter : center ∉ neighbors) {s s' : Scan σ L}
    (h : g.scan c center value neighbors s = (s', none)) :
    Dealt g center neighbors s (g.scanDeeds c center value neighbors s) s' := by
  induction neighbors generalizing s with
  | nil =>
    cases h
    exact .nil _
  | cons n rest ih =>
    obtain ⟨hn, hrest⟩ := List.nodup_cons.mp hnodup
    rw [List.mem_cons, not_or] at hcenter
    unfold scan at h
    unfold scanDeeds
    cases hone : g.consider c center value n s with
    | mk between failure =>
      rw [hone] at h
      cases failure with
      | some e => cases h
      | none =>
        refine (dealt_consider hone).append (ih hrest hcenter.2 h) ?_ ?_
        · intro hmem
          exact hcenter.1 (List.mem_singleton.mp hmem)
        · intro m hm
          rw [List.mem_singleton.mp hm]
          exact hn

/-- A visit of a primary whose list was not emptied: the list is brought up, the neighbours are
dealt with, and the list is handed over and emptied. -/
theorem dealt_visit {w after : Walk σ L} {farthest : Option ItemId}
    (hprimary : (g.index.primary center).isSome = true)
    (hunused : w.lists.slots[center]? ≠ some Slot.emptied)
    (h : g.visit c w center = (after, .ok farthest)) :
    ∃ (lists : NeighborIndex σ L) (said : List (Deed L)) (s : Scan σ L) (kept : L) (shared : σ),
      g.visitDeeds c w center = said ++ [.notified center kept] ∧
      dealings lists.journal.reverse = dealings w.lists.journal.reverse ∧
      (∀ id, id ≠ center → lists.slots[id]? = w.lists.slots[id]?) ∧
      Dealt g center (g.neighbors center) ⟨⟨lists, w.pending.erase center⟩, 0, none⟩ said s ∧
      after = ⟨({ s.walk.lists with shared := shared }.note (.completed center kept)).empty center,
        s.walk.pending⟩ := by
  obtain ⟨value, hvalue⟩ := Option.isSome_iff_exists.mp hprimary
  rcases NeighborIndex.init_cases c.lists w.lists center value with
    ⟨hgone, -⟩ | ⟨lists, list, -, hinit, hlive, hothers⟩
  · exact absurd hgone hunused
  rcases g.visit_cases c hvalue h with ⟨_, hno, -⟩ | ⟨lists', list', s, hinit', hscan, hfinish, -⟩
  · rw [hinit] at hno
    cases hno
  rw [hinit] at hinit'
  cases hinit'
  have hcenter : center ∉ g.neighbors center := fun hc => (g.mem_neighbors.mp hc).1 rfl
  have hdealt : Dealt g center (g.neighbors center) ⟨⟨lists, w.pending.erase center⟩, 0, none⟩ _ s :=
    dealt_scan (g.neighbors_nodup center) hcenter hscan
  obtain ⟨kept, hkept⟩ : ∃ kept, s.walk.lists.find center = some kept := by
    apply Option.ne_none_iff_exists'.mp
    apply hdealt.found
    rw [NeighborIndex.find_eq_some.mpr hlive]
    exact Option.some_ne_none list
  obtain ⟨shared, hafter⟩ := finish_eq c hkept hfinish
  have hbefore : dealings lists.journal.reverse = dealings w.lists.journal.reverse := by
    rw [← NeighborIndex.dealings_init c.lists w.lists center value, hinit]
  refine ⟨lists, _, s, kept, shared, ?_, hbefore, hothers, hdealt, hafter⟩
  unfold visitDeeds
  rw [hvalue]
  dsimp only
  rw [hinit]
  dsimp only
  rw [hscan]
  dsimp only
  rw [hkept]
  rfl

end Group

end DensityClustering
