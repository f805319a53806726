import DensityClustering.Proofs.Neighbor.PartitionRelation
import DensityClustering.Proofs.Neighbor.Roaming

/-!
The visits of a traversal, one after the other. A tour goes on for as long as there is a next center,
with no check whether that one still waits; a walk whose next center waits makes a tour, since a
visit only ever leads to a primary that does.
-/

namespace DensityClustering

open Std (ExtTreeSet)

namespace NeighborIndex

variable {σ V C L : Type} (kind : ListKind σ V C L) (index : NeighborIndex σ L)

theorem init_of_none {id : ItemId} (v : V) (h : index.slots[id]? = none) :
    index.init kind id v =
      (({ index with shared := (kind.build id v index.shared).2 }.note (.built id)).put id
        (kind.build id v index.shared).1, some (kind.build id v index.shared).1) := by
  simp only [init, h]
  rfl

/-- Asking for a list brings up a live one, unless the list was emptied. -/
theorem init_cases (id : ItemId) (v : V) :
    (index.slots[id]? = some .emptied ∧ index.init kind id v = (index, none)) ∨
    ∃ index' list, index.slots[id]? ≠ some .emptied ∧
      index.init kind id v = (index', some list) ∧ index'.slots[id]? = some (.live list) ∧
      ∀ id', id' ≠ id → index'.slots[id']? = index.slots[id']? := by
  cases hslot : index.slots[id]? with
  | none =>
    refine Or.inr ⟨_, _, nofun, init_of_none kind index v hslot, ?_, fun id' hne => ?_⟩
    · rw [slots_put, if_pos rfl]
    · rw [slots_put, if_neg hne]
      rfl
  | some slot =>
    cases slot with
    | live list =>
      exact Or.inr ⟨index, list, nofun, init_of_live kind v hslot, hslot, fun _ _ => rfl⟩
    | emptied => exact Or.inl ⟨rfl, init_of_emptied kind v hslot⟩

/-- An offer brings up the list of its center and no other, and it revives none. -/
theorem slots_offer (profile : DistanceProfile C) (id : ItemId) (v : V) (t : ItemId) (u : V)
    (id' : ItemId) :
    (index.offer kind profile id v t u).1.slots[id']? = index.slots[id']? ∨
    (id' = id ∧ index.slots[id]? ≠ some .emptied ∧
      ∃ list, (index.offer kind profile id v t u).1.slots[id']? = some (.live list)) := by
  unfold offer
  rcases init_cases kind index id v with ⟨-, hinit⟩ | ⟨index', list, hslot, hinit, -, hothers⟩
  · rw [hinit]
    exact Or.inl rfl
  · rw [hinit]
    dsimp only
    by_cases hid : id' = id
    · refine Or.inr ⟨hid, hslot, (kind.add list profile t u index'.shared).2.1, ?_⟩
      rw [slots_put, if_pos hid]
    · refine Or.inl ?_
      rw [slots_put, if_neg hid]
      exact hothers id' hid

variable {index} {profile : DistanceProfile C} {center neighbor id : ItemId} {v u : V}

theorem slots_offer_eq_emptied :
    (index.offer kind profile center v neighbor u).1.slots[id]? = some .emptied ↔
      index.slots[id]? = some .emptied := by
  rcases slots_offer kind index profile center v neighbor u id with h | ⟨hid, hslot, list, h⟩
  · rw [h]
  · rw [h, hid]
    exact iff_of_false nofun hslot

theorem find_offer_ne_none (h : index.find id ≠ none) :
    (index.offer kind profile center v neighbor u).1.find id ≠ none := by
  rcases slots_offer kind index profile center v neighbor u id with hsame | ⟨-, -, list, hlive⟩
  · unfold find at h ⊢
    rw [hsame]
    exact h
  · rw [find_eq_some.mpr hlive]
    exact Option.some_ne_none list

/-- What an offer keeps, an offer with its reciprocal one keeps. -/
theorem add_of_offer {I : NeighborIndex σ L → Prop}
    (hoffer : ∀ (index : NeighborIndex σ L) id v t u, I index →
      I (index.offer kind profile id v t u).1) (primary : Bool) (h : I index) :
    I (index.add kind profile center v neighbor u primary).1 := by
  cases primary with
  | false =>
    rw [add_false]
    exact hoffer index center v neighbor u h
  | true =>
    rw [add_true]
    exact hoffer _ neighbor u center v (hoffer index center v neighbor u h)

end NeighborIndex

namespace Group

variable {V σ C L : Type} (g : Group V) (c : Collaborators σ V C L)

/-- Either the center's list is asked about a neighbour, and answers that it is to be measured, or
nothing is asked of the other collaborators. -/
theorem consider_unasked_or_asked {center neighbor : ItemId} {value : V} (s : Scan σ L) :
    (∃ s', s'.walk.lists = s.walk.lists ∧ ∀ c' : Collaborators σ V C L, c'.lists = c.lists →
      g.consider c' center value neighbor s = (s', none)) ∨
    ∃ v primary, g.candidate s.walk.pending neighbor = some (v, primary) ∧
      s.walk.lists.infer c.lists center neighbor v = .none := by
  cases hc : g.candidate s.walk.pending neighbor with
  | none => exact Or.inl ⟨s, rfl, fun c' _ => by simp only [consider, hc]⟩
  | some found =>
    obtain ⟨v, primary⟩ := found
    cases hi : s.walk.lists.infer c.lists center neighbor v with
    | skip => exact Or.inl ⟨s, rfl, fun c' h => by simp only [consider, hc, h, hi]⟩
    | remove =>
      exact Or.inl ⟨{ s with walk.pending := s.walk.pending.erase neighbor }, rfl,
        fun c' h => by simp only [consider, hc, h, hi]⟩
    | none => exact Or.inr ⟨v, primary, rfl, hi⟩

/-- A neighbour that is measured is then offered to the lists, or not. -/
theorem lists_consider {center neighbor : ItemId} (value : V) {s : Scan σ L} {v : V}
    {primary : Bool} (hc : g.candidate s.walk.pending neighbor = some (v, primary))
    (hi : s.walk.lists.infer c.lists center neighbor v = .none) :
    (g.consider c center value neighbor s).1.walk.lists =
      { s.walk.lists with shared := (c.measure value v s.walk.lists.shared).2 }.note
        (.measured center neighbor) ∨
    ∃ profile, (g.consider c center value neighbor s).1.walk.lists =
      (({ s.walk.lists with shared := (c.measure value v s.walk.lists.shared).2 }.note
        (.measured center neighbor)).add c.lists profile center value neighbor v primary).1 := by
  cases hm : c.measure value v s.walk.lists.shared with
  | mk outcome shared =>
    cases outcome with
    | error e =>
      refine Or.inl ?_
      simp only [consider, hc, hi, hm]
    | ok profile =>
      by_cases hnear : profile.distance ≤ g.maxDistance
      · refine Or.inr ⟨profile, ?_⟩
        simp only [consider, hc, hi, hm, hnear, if_true]
        split <;> rfl
      · refine Or.inl ?_
        simp only [consider, hc, hi, hm, hnear, if_false]
        split <;> rfl

/-- What the notes of a measurement and offers keep, dealing with a neighbour keeps. -/
theorem consider_keeps {I : NeighborIndex σ L → Prop} {center neighbor : ItemId} {value : V}
    (hnote : ∀ (index : NeighborIndex σ L) shared, I index →
      I ({ index with shared := shared }.note (.measured center neighbor)))
    (hoffer : ∀ (index : NeighborIndex σ L) profile id v t u, I index →
      I (index.offer c.lists profile id v t u).1)
    {s s' : Scan σ L} (h : g.consider c center value neighbor s = (s', none))
    (hs : I s.walk.lists) : I s'.walk.lists := by
  rcases g.consider_cases c h with ⟨hs', -⟩ | ⟨v, primary, -, ⟨hs', -⟩ | ⟨hs', -⟩ |
      ⟨profile, shared, -, -, -, hlists, -⟩⟩
  · rw [hs']
    exact hs
  · rw [hs']
    exact hs
  · rw [hs']
    exact hs
  · have hnoted := hnote s.walk.lists shared hs
    rw [hlists]
    split
    · exact NeighborIndex.add_of_offer c.lists
        (fun index id v t u hi => hoffer index profile id v t u hi) primary hnoted
    · exact hnoted

/-- A live list is handed over and then gone. -/
theorem finish_eq {w after : Walk σ L} {center : ItemId} {value : V} {list : L}
    (hfind : w.lists.find center = some list)
    (h : finish c center value w = (after, none)) :
    ∃ shared, after =
      ⟨({ w.lists with shared := shared }.note (.completed center list)).empty center,
        w.pending⟩ := by
  unfold finish at h
  rw [hfind] at h
  dsimp only at h
  split at h
  · cases h
  · cases h
    exact ⟨_, rfl⟩

theorem journal_finish {w : Walk σ L} {center : ItemId} {value : V} {list : L}
    (hfind : w.lists.find center = some list) :
    (finish c center value w).1.lists.journal = .completed center list :: w.lists.journal := by
  unfold finish
  rw [hfind]
  dsimp only
  split
  · rfl
  · rfl

theorem shared_finish {w : Walk σ L} {center : ItemId} {value : V} {list : L}
    (hfind : w.lists.find center = some list) :
    (finish c center value w).1.lists.shared =
      (c.complete center value list w.lists.shared).2 := by
  unfold finish
  rw [hfind]
  dsimp only
  split
  · rfl
  · rfl

/-- A visit whose neighbours are all dealt with hands its center over. -/
theorem visit_of_scan {w : Walk σ L} {center : ItemId} {value : V} {lists : NeighborIndex σ L}
    {list : L} {s : Scan σ L} (hvalue : g.index.primary center = some value)
    (hinit : w.lists.init c.lists center value = (lists, some list))
    (hscan : g.scan c center value (g.neighbors center) ⟨⟨lists, w.pending.erase center⟩, 0, none⟩ =
      (s, none)) :
    g.visit c w center = match finish c center value s.walk with
      | (after, some e) => (after, .error (.completion e))
      | (after, none) => (after, .ok s.farthest) := by
  unfold visit
  cases hfinish : finish c center value s.walk with
  | mk after failure =>
    cases failure with
    | none => simp [hvalue, hinit, hscan, hfinish]
    | some e => simp [hvalue, hinit, hscan, hfinish]

/-- A visit whose neighbours are all dealt with leaves what handing its center over leaves. -/
theorem walk_of_scan {w : Walk σ L} {center : ItemId} {value : V} {lists : NeighborIndex σ L}
    {list : L} {s : Scan σ L}
    (hvalue : g.index.primary center = some value)
    (hinit : w.lists.init c.lists center value = (lists, some list))
    (hscan : g.scan c center value (g.neighbors center) ⟨⟨lists, w.pending.erase center⟩, 0, none⟩ =
      (s, none)) : (g.visit c w center).1 = (finish c center value s.walk).1 := by
  rw [g.visit_of_scan c hvalue hinit hscan]
  cases finish c center value s.walk with
  | mk after failure =>
    cases failure with
    | none => rfl
    | some e => rfl

/-- A visit stops at the first distance that fails. -/
theorem visit_of_scan_error {w : Walk σ L} {center : ItemId} {value : V}
    {lists : NeighborIndex σ L} {list : L} {s : Scan σ L} {e : String}
    (hvalue : g.index.primary center = some value)
    (hinit : w.lists.init c.lists center value = (lists, some list))
    (hscan : g.scan c center value (g.neighbors center) ⟨⟨lists, w.pending.erase center⟩, 0, none⟩ =
      (s, some e)) : g.visit c w center = (s.walk, .error (.distance e)) := by
  simp only [visit, hvalue, hinit, hscan]

/-- A neighbour comes up once, and the center never does. -/
theorem neighbors_split {center n : ItemId} {seen rest : List ItemId}
    (h : g.neighbors center = seen ++ n :: rest) : n ∉ seen ∧ n ≠ center := by
  have hnodup := g.neighbors_nodup center
  have hmem : n ∈ g.neighbors center := by
    rw [h]
    exact List.mem_append_right _ List.mem_cons_self
  rw [h] at hnodup
  refine ⟨fun hn => ?_, (g.mem_neighbors.mp hmem).1⟩
  exact (List.nodup_append.mp hnodup).2.2 n hn n List.mem_cons_self rfl

/-- A visit leads to a primary that still waits: each neighbour is dealt with once, so that the
farthest one is not dropped afterwards. -/
theorem farthest_waits {w after : Walk σ L} {center : ItemId} {farthest : Option ItemId}
    (h : g.visit c w center = (after, .ok farthest)) :
    ∀ id, farthest = some id → id ∈ after.pending := by
  intro id hid
  rw [hid] at h
  cases hvalue : g.index.primary center with
  | none =>
    unfold visit at h
    rw [hvalue] at h
    cases h
  | some value =>
    rcases g.visit_cases c hvalue h with ⟨-, -, -, hno⟩ | ⟨lists, list, s, -, hscan, hfinish, hfar⟩
    · cases hno
    · have hwaits : ∀ id, s.farthest = some id →
          id ∈ g.neighbors center ∧ id ∈ s.walk.pending := by
        apply g.scan_invariant c (g.neighbors center)
          (I := fun seen s => ∀ id, s.farthest = some id → id ∈ seen ∧ id ∈ s.walk.pending)
          ?_ ?_ hscan
        · intro seen n rest s s' hsplit hs hstep id hid
          have hnew : n ∉ seen := (g.neighbors_split hsplit).1
          have hseen (hm : id ∈ seen) : id ∈ seen ++ [n] := List.mem_append_left _ hm
          rcases g.consider_cases c hstep with ⟨hs', -⟩ | ⟨v, primary, -, ⟨hs', -⟩ | ⟨hs', -⟩ |
              ⟨profile, shared, -, -, hpending, -, hfar⟩⟩
          · rw [hs'] at hid ⊢
            exact ⟨hseen (hs id hid).1, (hs id hid).2⟩
          · rw [hs'] at hid ⊢
            exact ⟨hseen (hs id hid).1, (hs id hid).2⟩
          · rw [hs'] at hid ⊢
            have hne : id ≠ n := fun he => hnew (he ▸ (hs id hid).1)
            refine ⟨hseen (hs id hid).1, ?_⟩
            rw [ExtTreeSet.mem_erase]
            exact ⟨fun he => hne (Std.LawfulEqCmp.compare_eq_iff_eq.mp he).symm, (hs id hid).2⟩
          · rw [hpending]
            rcases hfar with ⟨-, hmem, -, hn⟩ | ⟨-, -, hsame⟩
            · rw [hn] at hid
              cases hid
              exact ⟨List.mem_append_right _ (List.mem_singleton.mpr rfl), hmem⟩
            · rw [hsame] at hid
              exact ⟨hseen (hs id hid).1, (hs id hid).2⟩
        · intro id hid
          cases hid
      have hpending : after.pending = s.walk.pending := by
        rw [← finish_pending c center value s.walk, hfinish]
      rw [hpending]
      exact (hwaits id hfar.symm).2

/-- Where a traversal starts. -/
def departure (shared : σ) : Walk σ L := ⟨.start shared, .ofList g.index.primaryIds⟩

variable {g} in
theorem mem_departure {shared : σ} {id : ItemId} :
    id ∈ (g.departure shared : Walk σ L).pending ↔ (g.index.primary id).isSome = true := by
  rw [← PartitionIndex.mem_primaryIds]
  show id ∈ ExtTreeSet.ofList g.index.primaryIds ↔ _
  rw [ExtTreeSet.mem_iff_contains, ExtTreeSet.contains_ofList, List.contains_iff_mem]

/-- The first stored primary, if it is one still. -/
def startingPoint : Option ItemId :=
  g.first.filter fun id => (ExtTreeSet.ofList g.index.primaryIds).contains id

theorem startingPoint_waits (shared : σ) (id : ItemId) (h : g.startingPoint = some id) :
    id ∈ (g.departure shared : Walk σ L).pending :=
  ExtTreeSet.mem_iff_contains.mpr (Option.filter_eq_some_iff.mp h).2

theorem traverse_eq (shared : σ) : g.traverse c shared =
    ⟨(g.roam c (g.departure shared) g.startingPoint).1.lists.shared,
      (g.roam c (g.departure shared) g.startingPoint).1.lists.journal.reverse,
      (g.roam c (g.departure shared) g.startingPoint).2.map
        fun (id, cause) => .traversal g.parent.key id cause⟩ := rfl

/-- The visits from a walk on, each with the walk it finds, up to where nothing is left to visit or a
visit fails. -/
inductive Tour : Walk σ L → Option ItemId → List (Walk σ L × ItemId) → Walk σ L →
    Option (ItemId × TraversalCause) → Prop
  | arrived {w : Walk σ L} {next : Option ItemId} (nothing : next.or w.smallest = none) :
      Tour w next [] w none
  | stopped {w after : Walk σ L} {next : Option ItemId} {center : ItemId} {cause : TraversalCause}
      (chosen : next.or w.smallest = some center)
      (visited : g.visit c w center = (after, .error cause)) :
      Tour w next [(w, center)] after (some (center, cause))
  | onward {w between after : Walk σ L} {next farthest : Option ItemId} {center : ItemId}
      {stops : List (Walk σ L × ItemId)} {failure : Option (ItemId × TraversalCause)}
      (chosen : next.or w.smallest = some center)
      (visited : g.visit c w center = (between, .ok farthest))
      (rest : Tour between farthest stops after failure) :
      Tour w next ((w, center) :: stops) after failure

variable {g c}

/-- The next center of a walk is one that waits. -/
theorem mem_of_next {w : Walk σ L} {next : Option ItemId} {center : ItemId}
    (hnext : ∀ id, next = some id → id ∈ w.pending) (h : next.or w.smallest = some center) :
    center ∈ w.pending := by
  rcases Option.or_eq_some_iff.mp h with hn | ⟨-, hs⟩
  · exact hnext center hn
  · exact mem_of_smallest hs

/-- A walk makes a tour: it never stops early. -/
theorem exists_tour {w : Walk σ L} {next : Option ItemId}
    (hnext : ∀ id, next = some id → id ∈ w.pending) :
    ∃ stops, Tour g c w next stops (g.roam c w next).1 (g.roam c w next).2 := by
  induction w, next using roam.induct g c with
  | case1 w next hnone =>
    rw [roam_of_none g c hnone]
    exact ⟨[], .arrived hnone⟩
  | case2 w next center hchosen hmem after cause hvisit =>
    rw [roam_of_error g c hchosen hmem hvisit]
    exact ⟨[(w, center)], .stopped hchosen hvisit⟩
  | case3 w next center hchosen hmem between farthest hvisit ih =>
    rw [roam_of_ok g c hchosen hmem hvisit]
    obtain ⟨stops, hrest⟩ := ih (g.farthest_waits c hvisit)
    exact ⟨(w, center) :: stops, .onward hchosen hvisit hrest⟩
  | case4 w next center hchosen hmem => exact absurd (mem_of_next hnext hchosen) hmem

/-- A traversal is a tour from its first primary. -/
theorem exists_tour_of_traverse (shared : σ) :
    ∃ stops after failure,
      Tour g c (g.departure shared) g.startingPoint stops after failure ∧
      g.traverse c shared = ⟨after.lists.shared, after.lists.journal.reverse,
        failure.map fun (id, cause) => .traversal g.parent.key id cause⟩ := by
  obtain ⟨stops, htour⟩ := exists_tour (c := c) (g.startingPoint_waits (σ := σ) (L := L) shared)
  exact ⟨stops, _, _, htour, rfl⟩

section Success

variable (hmeasure : ∀ a b s, ∃ profile, (c.measure a b s).1 = .ok profile)

include hmeasure

theorem consider_ok {center : ItemId} {value : V} (neighbor : ItemId) (s : Scan σ L) :
    (g.consider c center value neighbor s).2 = none := by
  unfold consider
  split
  · rfl
  · next v primary hcandidate =>
    split
    · rfl
    · rfl
    · obtain ⟨profile, hprofile⟩ := hmeasure value v s.walk.lists.shared
      dsimp only
      rw [hprofile]
      dsimp only
      split
      · rfl
      · rfl

theorem scan_ok {center : ItemId} {value : V} (neighbors : List ItemId) (s : Scan σ L) :
    (g.scan c center value neighbors s).2 = none := by
  induction neighbors generalizing s with
  | nil => rfl
  | cons n rest ih =>
    have hone : (g.consider c center value n s).2 = none := consider_ok hmeasure n s
    unfold scan
    cases hn : g.consider c center value n s with
    | mk between failure =>
      rw [hn] at hone
      cases failure with
      | some e => cases hone
      | none => exact ih between

/-- Nothing but a collaborator makes a visit fail. -/
theorem visit_ok (hcomplete : ∀ id v l s, (c.complete id v l s).1 = .ok ()) (w : Walk σ L)
    (center : ItemId) : ∃ after farthest, g.visit c w center = (after, .ok farthest) := by
  unfold visit
  dsimp only
  split
  · exact ⟨_, _, rfl⟩
  · next value _ =>
    split
    · exact ⟨_, _, rfl⟩
    · next lists _ _ =>
      have hscan : (g.scan c center value (g.neighbors center)
          ⟨⟨lists, w.pending.erase center⟩, 0, none⟩).2 = none := scan_ok hmeasure ..
      split
      · next heq =>
        rw [heq] at hscan
        cases hscan
      · next s heq =>
        have hfinish : (finish c center value s.walk).2 = none := by
          unfold finish
          split
          · rfl
          · next list _ =>
            dsimp only
            rw [hcomplete center value list s.walk.lists.shared]
        split
        · next heq' =>
          rw [heq'] at hfinish
          cases hfinish
        · exact ⟨_, _, rfl⟩

theorem Tour.failure_eq_none (hcomplete : ∀ id v l s, (c.complete id v l s).1 = .ok ())
    {w after : Walk σ L} {next : Option ItemId} {stops : List (Walk σ L × ItemId)}
    {failure : Option (ItemId × TraversalCause)} (h : Tour g c w next stops after failure) :
    failure = none := by
  induction h with
  | arrived => rfl
  | @stopped w after next center cause hchosen hvisited =>
    obtain ⟨after', farthest, hok⟩ : ∃ after farthest, g.visit c w center = (after, .ok farthest) :=
      visit_ok hmeasure hcomplete w center
    rw [hvisited] at hok
    cases hok
  | onward _ _ _ ih => exact ih

end Success

end Group

end DensityClustering
