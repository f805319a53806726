import DensityClustering.Proofs.Neighbor.Coverage
import DensityClustering.Proofs.Neighbor.Measurement
import DensityClustering.Proofs.Scalar.Comparison

/-!
Where a traversal goes next. A visit measures some of its center's neighbours; the next center is the
farthest of them that still waits, the first one if several are equally far, and where none of them
is at a positive distance, it is the smallest id that waits.
-/

namespace DensityClustering

open Std (ExtTreeSet)

/-- The first entry with the largest distance among those that are numbers. -/
structure IsFarthest (entries : List (ItemId × Float)) (m : ItemId × Float) : Prop where
  number : m.2.isNaN = false
  largest : ∀ x ∈ entries, x.2.isNaN = false → x.2 ≤ m.2
  first : ∃ before later, entries = before ++ m :: later ∧ ∀ x ∈ before, ¬m.2 ≤ x.2

/-- What a scan remembers of the entries that it saw: the farthest one, if one is at a positive
distance. -/
def Leads (entries : List (ItemId × Float)) (distance : Float) (farthest : Option ItemId) : Prop :=
  (farthest = none ∧ distance = 0 ∧ ∀ x ∈ entries, ¬0 < x.2) ∨
  ∃ m, farthest = some m.1 ∧ distance = m.2 ∧ 0 < m.2 ∧ IsFarthest entries m

namespace Leads

variable {entries : List (ItemId × Float)} {distance : Float} {farthest : Option ItemId}
  {m : ItemId × Float}

/-- Once there is a larger distance, that one is the farthest. -/
theorem concat_of_lt (h : Leads entries distance farthest) (hlt : distance < m.2) :
    Leads (entries ++ [m]) m.2 (some m.1) := by
  have hpos : 0 < m.2 := by
    rcases h with ⟨-, hzero, -⟩ | ⟨m', -, hdistance, hpos, -⟩
    · rwa [hzero] at hlt
    · rw [hdistance] at hlt
      exact Comparison.lt_trans hpos hlt
  have hbelow : ∀ x ∈ entries, x.2.isNaN = false → x.2 ≤ distance := by
    intro x hx hnumber
    rcases h with ⟨-, hzero, hnone⟩ | ⟨m', -, hdistance, -, hfar⟩
    · rw [hzero] at hlt ⊢
      exact Comparison.le_of_not_lt (Comparison.lt_iff.mp hlt).1 hnumber (hnone x hx)
    · rw [hdistance]
      exact hfar.largest x hx hnumber
  refine Or.inr ⟨m, rfl, rfl, hpos, (Comparison.lt_iff.mp hlt).2.1, fun x hx hnumber => ?_,
    entries, [], rfl, fun x hx hle => ?_⟩
  · rcases List.mem_append.mp hx with hx | hx
    · exact Comparison.le_trans (hbelow x hx hnumber) (Comparison.le_of_lt hlt)
    · rw [List.mem_singleton.mp hx]
      exact Comparison.le_refl (Comparison.lt_iff.mp hlt).2.1
  · have hnumber : x.2.isNaN = false := (Comparison.le_iff.mp hle).2.1
    exact Comparison.not_le_of_lt hlt (Comparison.le_trans hle (hbelow x hx hnumber))

/-- A distance that is not larger, or no number, changes nothing. -/
theorem concat_of_not_lt (h : Leads entries distance farthest) (hnot : ¬distance < m.2) :
    Leads (entries ++ [m]) distance farthest := by
  rcases h with ⟨hnone, hzero, hall⟩ | ⟨m', hfarthest, hdistance, hpos, hfar⟩
  · refine Or.inl ⟨hnone, hzero, fun x hx => ?_⟩
    rcases List.mem_append.mp hx with hx | hx
    · exact hall x hx
    · rw [List.mem_singleton.mp hx, ← hzero]
      exact hnot
  · obtain ⟨before, later, hsplit, hbefore⟩ := hfar.first
    refine Or.inr ⟨m', hfarthest, hdistance, hpos, hfar.number, fun x hx hnumber => ?_,
      before, later ++ [m], ?_, hbefore⟩
    · rcases List.mem_append.mp hx with hx | hx
      · exact hfar.largest x hx hnumber
      · rw [List.mem_singleton.mp hx] at hnumber ⊢
        exact Comparison.le_of_not_lt hfar.number hnumber (hdistance ▸ hnot)
    · rw [hsplit, List.append_assoc, List.cons_append]

end Leads

/-- The id that a list answers to drop. -/
def Deed.dropped {L : Type} : Deed L → Option ItemId
  | answered _ neighbor .remove => some neighbor
  | _ => none

theorem Deed.dropped_eq_some {L : Type} {d : Deed L} {id : ItemId} :
    d.dropped = some id ↔ ∃ center, d = .answered center id .remove := by
  cases d with
  | answered center neighbor answer =>
    cases answer with
    | remove => simp [dropped]
    | none => simp [dropped]
    | skip => simp [dropped]
  | measured center neighbor => simp [dropped]
  | offered holder id => simp [dropped]
  | notified center list => simp [dropped]

namespace Group

variable {V σ C L : Type} (g : Group V) (c : Collaborators σ V C L) (center : ItemId) (value : V)

/-- A neighbour with its distance, if that is measured. -/
def considerGauge (neighbor : ItemId) (s : Scan σ L) : Option (ItemId × Float) :=
  match g.candidate s.walk.pending neighbor with
  | none => none
  | some (v, _) =>
    if s.walk.lists.infer c.lists center neighbor v = .none then
      match (c.measure value v s.walk.lists.shared).1 with
      | .error _ => none
      | .ok profile => some (neighbor, profile.distance)
    else none

def scanGauges : List ItemId → Scan σ L → List (ItemId × Float)
  | [], _ => []
  | neighbor :: rest, s =>
    (g.considerGauge c center value neighbor s).toList ++
      match g.consider c center value neighbor s with
      | (_, some _) => []
      | (s, none) => scanGauges rest s

/-- The neighbours that a visit measures, with their distances, in order. -/
def visitGauges (w : Walk σ L) (center : ItemId) : List (ItemId × Float) :=
  match g.index.primary center with
  | none => []
  | some value =>
    match w.lists.init c.lists center value with
    | (_, none) => []
    | (lists, some _) =>
      g.scanGauges c center value (g.neighbors center) ⟨⟨lists, w.pending.erase center⟩, 0, none⟩

variable {g c center value} {neighbor : ItemId} {s s' : Scan σ L}

/-- A scan that deals with a neighbour measures it or not, and remembers it if it is farther. -/
theorem considerGauge_cases (h : g.consider c center value neighbor s = (s', none)) :
    (g.considerGauge c center value neighbor s = none ∧
      (g.considerDeeds c center value neighbor s).filterMap Deed.event = [] ∧
      s'.distance = s.distance ∧ s'.farthest = s.farthest ∧
      ∀ id, id ≠ neighbor → (id ∈ s'.walk.pending ↔ id ∈ s.walk.pending)) ∨
    ∃ d, g.considerGauge c center value neighbor s = some (neighbor, d) ∧
      (g.considerDeeds c center value neighbor s).filterMap Deed.event =
        [.measured center neighbor] ∧
      s'.walk.pending = s.walk.pending ∧
      ((s.distance < d ∧ neighbor ∈ s.walk.pending ∧ s'.distance = d ∧
          s'.farthest = some neighbor) ∨
        (¬(s.distance < d ∧ neighbor ∈ s.walk.pending) ∧ s'.distance = s.distance ∧
          s'.farthest = s.farthest)) := by
  rcases g.consider_cases c h with ⟨rfl, hcandidate⟩ | ⟨v, primary, hcandidate, hcase⟩
  · refine Or.inl ⟨?_, ?_, rfl, rfl, fun _ _ => Iff.rfl⟩
    · rw [considerGauge, hcandidate]
    · rw [considerDeeds_eq_nil hcandidate]
      rfl
  obtain ⟨offers, hoffers, hdeeds⟩ : ∃ offers : List (Deed L), _ ∧ _ := considerDeeds_eq hcandidate
  rw [hdeeds]
  rcases hcase with ⟨rfl, hskip⟩ | ⟨rfl, hremove⟩ | ⟨profile, shared, hnone, hm, hpending, -, hfar⟩
  · refine Or.inl ⟨?_, ?_, rfl, rfl, fun _ _ => Iff.rfl⟩
    · simp only [considerGauge, hcandidate, hskip, reduceCtorEq, if_false]
    · rw [hskip]
      rfl
  · refine Or.inl ⟨?_, ?_, rfl, rfl, fun id hne => ?_⟩
    · simp only [considerGauge, hcandidate, hremove, reduceCtorEq, if_false]
    · rw [hremove]
      rfl
    rw [ExtTreeSet.mem_erase, Ne, Std.LawfulEqCmp.compare_eq_iff_eq]
    exact and_iff_right (Ne.symm hne)
  · have hunseen : offers.filterMap Deed.event = [] := by
      refine List.filterMap_eq_nil_iff.mpr fun d hd => ?_
      rcases hoffers d hd with rfl | rfl
      · rfl
      · rfl
    have hseen : (Deed.measured center neighbor :: offers).filterMap Deed.event =
        [.measured center neighbor] := congrArg (Event.measured center neighbor :: ·) hunseen
    refine Or.inr ⟨profile.distance, ?_, ?_, hpending, hfar⟩
    · simp only [considerGauge, hcandidate, hnone, hm, if_true]
    · rw [List.filterMap_cons_none rfl, if_pos hnone, hseen]

theorem scanGauges_of_consider {between : Scan σ L} (rest : List ItemId)
    (h : g.consider c center value neighbor s = (between, none)) :
    g.scanGauges c center value (neighbor :: rest) s =
      (g.considerGauge c center value neighbor s).toList ++
        g.scanGauges c center value rest between := by
  rw [scanGauges, h]

/-- The entries that wait, after one more neighbour. -/
theorem leads_consider {entries : List (ItemId × Float)}
    (h : Leads (entries.filter fun m => s.walk.pending.contains m.1) s.distance s.farthest)
    (hnew : ∀ m ∈ entries, m.1 ≠ neighbor)
    (hstep : g.consider c center value neighbor s = (s', none)) :
    Leads ((entries ++ (g.considerGauge c center value neighbor s).toList).filter
      fun m => s'.walk.pending.contains m.1) s'.distance s'.farthest := by
  rcases considerGauge_cases hstep with
    ⟨hgauge, -, hdistance, hfarthest, hpending⟩ | ⟨d, hgauge, -, hpending, hfar⟩
  · have hsame : (entries.filter fun m => s'.walk.pending.contains m.1) =
        entries.filter fun m => s.walk.pending.contains m.1 := by
      refine List.filter_congr fun m hm => ?_
      rw [Bool.eq_iff_iff, ← ExtTreeSet.mem_iff_contains, ← ExtTreeSet.mem_iff_contains]
      exact hpending m.1 (hnew m hm)
    rw [hgauge, Option.toList_none, List.append_nil, hsame, hdistance, hfarthest]
    exact h
  · rw [hgauge, Option.toList_some, hpending, List.filter_append]
    by_cases hmem : neighbor ∈ s.walk.pending
    · have hone : ([(neighbor, d)].filter fun m => s.walk.pending.contains m.1) =
          [(neighbor, d)] := by
        simpa using hmem
      rw [hone]
      rcases hfar with ⟨hlt, -, hdistance, hfarthest⟩ | ⟨hnot, hdistance, hfarthest⟩
      · rw [hdistance, hfarthest]
        exact h.concat_of_lt (m := (neighbor, d)) hlt
      · rw [hdistance, hfarthest]
        exact h.concat_of_not_lt (m := (neighbor, d)) fun hlt => hnot ⟨hlt, hmem⟩
    · -- One of the others is never remembered.
      have hnone : ([(neighbor, d)].filter fun m => s.walk.pending.contains m.1) = [] := by
        simpa using hmem
      rw [hnone, List.append_nil]
      rcases hfar with ⟨-, hin, -⟩ | ⟨-, hdistance, hfarthest⟩
      · exact absurd hin hmem
      · rw [hdistance, hfarthest]
        exact h

theorem leads_scan {neighbors : List ItemId} (hnodup : neighbors.Nodup)
    {entries : List (ItemId × Float)} (hnew : ∀ m ∈ entries, m.1 ∉ neighbors)
    (h : Leads (entries.filter fun m => s.walk.pending.contains m.1) s.distance s.farthest)
    (hscan : g.scan c center value neighbors s = (s', none)) :
    Leads ((entries ++ g.scanGauges c center value neighbors s).filter
      fun m => s'.walk.pending.contains m.1) s'.distance s'.farthest := by
  induction neighbors generalizing s entries with
  | nil =>
    cases hscan
    rw [scanGauges, List.append_nil]
    exact h
  | cons n rest ih =>
    obtain ⟨hn, hrest⟩ := List.nodup_cons.mp hnodup
    unfold Group.scan at hscan
    cases hone : g.consider c center value n s with
    | mk between failure =>
      rw [hone] at hscan
      cases failure with
      | some e => cases hscan
      | none =>
        have hfirst := leads_consider h (fun m hm he => hnew m hm (he ▸ List.mem_cons_self)) hone
        rw [scanGauges_of_consider rest hone, ← List.append_assoc]
        refine ih hrest (fun m hm => ?_) hfirst hscan
        rcases List.mem_append.mp hm with hm | hm
        · exact fun hin => hnew m hm (List.mem_cons_of_mem _ hin)
        · rcases considerGauge_cases hone with ⟨hgauge, -⟩ | ⟨d, hgauge, -⟩
          · rw [hgauge] at hm
            cases hm
          · rw [hgauge] at hm
            rw [List.mem_singleton.mp hm]
            exact hn

/-- The journal tells of the measurements. -/
theorem filterMap_event_scanDeeds {neighbors : List ItemId}
    (h : g.scan c center value neighbors s = (s', none)) :
    (g.scanDeeds c center value neighbors s).filterMap Deed.event =
      (g.scanGauges c center value neighbors s).map fun m => .measured center m.1 := by
  induction neighbors generalizing s with
  | nil => rfl
  | cons n rest ih =>
    unfold scan at h
    cases hone : g.consider c center value n s with
    | mk between failure =>
      rw [hone] at h
      cases failure with
      | some e => cases h
      | none =>
        rw [scanGauges_of_consider rest hone, scanDeeds, hone, List.filterMap_append,
          List.map_append, ih h]
        rcases considerGauge_cases hone with ⟨hgauge, hdeeds, -⟩ | ⟨d, hgauge, hdeeds, -⟩
        · rw [hgauge, hdeeds]
          rfl
        · rw [hgauge, hdeeds]
          rfl

variable (g c center value) in
theorem scanGauges_sublist (neighbors : List ItemId) (s : Scan σ L) :
    ((g.scanGauges c center value neighbors s).map Prod.fst).Sublist neighbors := by
  induction neighbors generalizing s with
  | nil => exact List.Sublist.refl _
  | cons n rest ih =>
    have hone : ((g.considerGauge c center value n s).toList.map Prod.fst).Sublist [n] := by
      unfold considerGauge
      split
      · exact List.nil_sublist _
      · split
        · split
          · exact List.nil_sublist _
          · exact List.Sublist.refl _
        · exact List.nil_sublist _
    rw [scanGauges, List.map_append]
    refine hone.append ?_
    split
    · exact List.nil_sublist _
    · exact ih _

variable (g c center) in
/-- A visit measures neighbours of its center, in the order in which they are listed. -/
theorem visitGauges_sublist (w : Walk σ L) :
    ((g.visitGauges c w center).map Prod.fst).Sublist (g.neighbors center) := by
  unfold visitGauges
  split
  · exact List.nil_sublist _
  · split
    · exact List.nil_sublist _
    · exact scanGauges_sublist ..

/-- A visit of an id that waits leads to the farthest of those that it measures and that still wait,
and the journal tells what it measures. -/
theorem Ready.leads {w after : Walk σ L} {farthest : Option ItemId} (hready : g.Ready w)
    (hmem : center ∈ w.pending) (h : g.visit c w center = (after, .ok farthest)) :
    (∃ d, Leads ((g.visitGauges c w center).filter fun m => after.pending.contains m.1) d
      farthest) ∧
    ((g.visitDeeds c w center).filterMap Deed.event).filterMap Event.pair =
      (g.visitGauges c w center).map fun m => (center, m.1) := by
  obtain ⟨value, hvalue⟩ := Option.isSome_iff_exists.mp (hready.primary center hmem)
  rcases NeighborIndex.init_cases c.lists w.lists center value with
    ⟨hgone, -⟩ | ⟨lists, list, -, hinit, -, -⟩
  · exact absurd hgone (hready.unused center hmem)
  rcases g.visit_cases c hvalue h with ⟨_, hno, -⟩ | ⟨lists', list', s, hinit', hscan, hfinish, hfar⟩
  · rw [hinit] at hno
    cases hno
  rw [hinit] at hinit'
  cases hinit'
  have hgauges : g.visitGauges c w center = g.scanGauges c center value (g.neighbors center)
      ⟨⟨lists, w.pending.erase center⟩, 0, none⟩ := by
    simp only [visitGauges, hvalue, hinit]
  have hpending : after.pending = s.walk.pending := by
    rw [← finish_pending c center value s.walk, hfinish]
  constructor
  · rw [hgauges, hpending, hfar]
    have hstart : Leads (([] : List (ItemId × Float)).filter
        fun m => (w.pending.erase center).contains m.1) 0 none :=
      Or.inl ⟨rfl, rfl, fun _ hx => absurd hx List.not_mem_nil⟩
    exact ⟨s.distance, leads_scan (g.neighbors_nodup center)
      (fun _ hm => absurd hm List.not_mem_nil) hstart hscan⟩
  · have hdeeds : (g.visitDeeds c w center).filterMap Deed.event =
        ((g.visitGauges c w center).map fun m => Event.measured center m.1) ++
          (s.walk.lists.find center).toList.map (Event.completed center) := by
      simp only [visitDeeds, hvalue, hinit, hscan]
      rw [List.filterMap_append, filterMap_event_scanDeeds hscan, hgauges]
      cases s.walk.lists.find center with
      | none => rfl
      | some list => rfl
    rw [hdeeds, List.filterMap_append, List.filterMap_map, List.filterMap_map]
    have hhanded : (s.walk.lists.find center).toList.filterMap
        (Event.pair ∘ Event.completed center) = [] :=
      List.filterMap_eq_nil_iff.mpr fun _ _ => rfl
    rw [hhanded, List.append_nil]
    exact congrFun List.filterMap_eq_map' _

section Remaining

variable {w w' after : Walk σ L} {next : Option ItemId} {stops before rest : List (Walk σ L × ItemId)}

variable (g c) in
/-- The primaries that were neither visited nor dropped at some stops, in order. -/
def remaining (stops : List (Walk σ L × ItemId)) : List ItemId :=
  g.index.primaryIds.filter fun id =>
    decide (id ∉ stops.map Prod.snd) && decide (id ∉ (g.deeds c stops).filterMap Deed.dropped)

theorem mem_remaining {id : ItemId} : id ∈ g.remaining c stops ↔
    (g.index.primary id).isSome = true ∧ id ∉ stops.map Prod.snd ∧
      ∀ a, .answered a id .remove ∉ g.deeds c stops := by
  rw [remaining, List.mem_filter, PartitionIndex.mem_primaryIds, Bool.and_eq_true,
    decide_eq_true_iff, decide_eq_true_iff, List.mem_filterMap, not_exists]
  refine and_congr_right fun _ => and_congr_right fun _ => ⟨fun h a hd => ?_, fun h d hd => ?_⟩
  · exact h _ ⟨hd, rfl⟩
  · obtain ⟨a, rfl⟩ := Deed.dropped_eq_some.mp hd.2
    exact h a hd.1

/-- A set lists its members in order. -/
theorem toList_eq {pending : ExtTreeSet ItemId} {ids : List ItemId}
    (hids : ids.Pairwise fun a b => compare a b = .lt) (h : ∀ id, id ∈ pending ↔ id ∈ ids) :
    pending.toList = ids := by
  have hnodup {ids : List ItemId} (hids : ids.Pairwise fun a b => compare a b = .lt) : ids.Nodup :=
    hids.imp fun {a b} hlt he => by
      have heq : compare a b = .eq := Std.LawfulEqCmp.compare_eq_iff_eq.mpr he
      rw [heq] at hlt
      cases hlt
  refine List.Perm.eq_of_pairwise (fun a b _ _ hab hba => ?_) ExtTreeSet.ordered_toList hids
    ((List.perm_ext_iff_of_nodup (hnodup ExtTreeSet.ordered_toList) (hnodup hids)).mpr
      fun id => ExtTreeSet.mem_toList.trans (h id))
  rw [Std.OrientedOrd.eq_swap, hba] at hab
  cases hab

theorem pairwise_remaining : (g.remaining c stops).Pairwise fun a b => compare a b = .lt :=
  Std.ExtTreeMap.ordered_keys.sublist List.filter_sublist

theorem startingPoint_eq :
    g.startingPoint = g.first.filter fun id => (g.index.primary id).isSome := by
  rw [startingPoint]
  congr 1
  funext id
  have hwaits : id ∈ (g.departure () : Walk Unit Unit).pending ↔ _ := mem_departure
  rw [Bool.eq_iff_iff, ← ExtTreeSet.mem_iff_contains]
  exact hwaits

theorem smallest_departure (shared : σ) :
    (g.departure shared : Walk σ L).smallest = g.index.primaryIds.head? := by
  rw [Walk.smallest, toList_eq Std.ExtTreeMap.ordered_keys fun id =>
    mem_departure.trans (PartitionIndex.mem_primaryIds ..).symm]
  rfl

theorem Tour.head?_eq {failure : Option (ItemId × TraversalCause)}
    (h : Tour g c w next stops after failure) :
    stops.head?.map Prod.snd = next.or w.smallest := by
  cases h with
  | arrived hnothing => exact hnothing.symm
  | stopped hchosen _ => exact hchosen.symm
  | onward hchosen _ _ => exact hchosen.symm

/-- The first stop of a tour that does not fail, and the tour that follows. -/
theorem Tour.of_cons (h : Tour g c w next ((w', center) :: rest) after none) :
    w' = w ∧ next.or w.smallest = some center ∧ ∃ between farthest,
      g.visit c w center = (between, .ok farthest) ∧ Tour g c between farthest rest after none := by
  cases h with
  | onward hchosen hvisited hrest => exact ⟨rfl, hchosen, _, _, hvisited, hrest⟩

/-- A tour that does not fail, at one of its stops: the visit there, what waits after it, and the
tour that follows. -/
theorem Tour.stop (h : Tour g c w next (before ++ (w', center) :: rest) after none)
    (hready : g.Ready w) (hnext : ∀ id, next = some id → id ∈ w.pending) :
    ∃ between farthest, g.visit c w' center = (between, .ok farthest) ∧ g.Ready w' ∧
      center ∈ w'.pending ∧ Tour g c between farthest rest after none ∧
      ∀ id, id ∈ between.pending ↔ id ∈ w.pending ∧
        id ∉ (before ++ [(w', center)]).map Prod.snd ∧
        ∀ a, .answered a id .remove ∉ g.deeds c (before ++ [(w', center)]) := by
  induction before generalizing w next with
  | nil =>
    obtain ⟨rfl, hchosen, between, farthest, hvisited, hrest⟩ := Tour.of_cons h
    have hmem : center ∈ w'.pending := mem_of_next hnext hchosen
    have hhanded := hready.visit hmem hvisited
    refine ⟨between, farthest, hvisited, hready, hmem, hrest, fun id => ?_⟩
    rw [hhanded.pending]
    simp only [List.nil_append, List.map_cons, List.map_nil, List.mem_singleton, deeds,
      List.flatMap_cons, List.flatMap_nil, List.append_nil]
    refine and_congr_right fun _ => and_congr_right fun _ => ⟨fun hno a hd => ?_, fun hno => ?_⟩
    · rw [(hhanded.asked a id .remove hd).1] at hd
      exact hno hd
    · exact hno center
  | cons stop before ih =>
    obtain ⟨w₁, first⟩ := stop
    obtain ⟨rfl, hchosen, between, farthest, hvisited, hrest⟩ := Tour.of_cons h
    have hmem : first ∈ w₁.pending := mem_of_next hnext hchosen
    have hhanded := hready.visit hmem hvisited
    obtain ⟨between', farthest', hvisited', hready', hmem', hrest', hpending⟩ :=
      ih hrest hhanded.ready (g.farthest_waits c hvisited)
    refine ⟨between', farthest', hvisited', hready', hmem', hrest', fun id => ?_⟩
    rw [hpending, hhanded.pending]
    simp only [List.cons_append, List.map_cons, List.mem_cons, not_or, deeds,
      List.flatMap_cons, List.mem_append]
    constructor
    · rintro ⟨⟨hw, hne, hno⟩, hlater, hstill⟩
      refine ⟨hw, ⟨hne, hlater⟩, fun a => ⟨fun hd => ?_, hstill a⟩⟩
      rw [(hhanded.asked a id .remove hd).1] at hd
      exact hno hd
    · rintro ⟨hw, ⟨hne, hlater⟩, hno⟩
      exact ⟨⟨hw, hne, (hno first).1⟩, hlater, fun a => (hno a).2⟩

end Remaining

variable (g c) in
/-- A center that is visited waits, and its visit does not fail. -/
theorem calls_of_tour {w after : Walk σ L} {next : Option ItemId}
    {stops : List (Walk σ L × ItemId)} (h : Tour g c w next stops after none)
    (hready : g.Ready w) (hnext : ∀ id, next = some id → id ∈ w.pending) :
    ((g.deeds c stops).filterMap Deed.event).filterMap Event.pair =
      stops.flatMap fun stop => (g.visitGauges c stop.1 stop.2).map fun m => (stop.2, m.1) := by
  rw [deeds, List.filterMap_flatMap, List.filterMap_flatMap]
  refine List.flatMap_congr fun stop hstop => ?_
  obtain ⟨before, rest, hsplit⟩ := List.append_of_mem hstop
  rw [hsplit] at h
  obtain ⟨between, farthest, hvisited, hready', hmem, -, -⟩ := h.stop hready hnext
  exact (hready'.leads hmem hvisited).2

/-- A traversal that does not fail is greedy. It starts at the primary that was stored first, if that
one is a primary still, and else at the smallest one. After each center it goes on to the first of
those that were measured there, still wait and are farthest, the distances that are no number left
out, be they in range or not; if none of them is at a positive distance it goes on to the smallest
id that waits; and it ends when none waits. -/
theorem traversal_is_greedy {P : Type} (maxDistance : Float) (parent : Descriptor)
    (edits : List (Edit P V)) (c : Collaborators σ V C L) (shared : σ)
    (hok : ((edited maxDistance parent edits).traverse c shared).failure = none) :
    let g : Group V := edited maxDistance parent edits
    let outcome := g.traverse c shared
    let first := (edits.filterMap Edit.change).findSome? PartitionIndex.Change.starter
    ∃ stops after, Tour g c (g.departure shared) g.startingPoint stops after none ∧
      outcome = ⟨after.lists.shared, after.lists.journal.reverse, none⟩ ∧
      outcome.notified.map Prod.fst = stops.map Prod.snd ∧
      outcome.calls = stops.flatMap
        (fun stop => (g.visitGauges c stop.1 stop.2).map fun m => (stop.2, m.1)) ∧
      stops.head?.map Prod.snd =
        (first.filter fun id => (g.index.primary id).isSome).or g.index.primaryIds.head? ∧
      ∀ before w center rest, stops = before ++ (w, center) :: rest →
        let left := g.remaining c (before ++ [(w, center)])
        let measured := (g.visitGauges c w center).filter fun m => decide (m.1 ∈ left)
        (measured.map Prod.fst).Pairwise
          (Precedes g.index.members (g.index.partitionsOf center)) ∧
        ((∃ m ∈ measured, 0 < m.2) →
          ∃ m, IsFarthest measured m ∧ rest.head?.map Prod.snd = some m.1) ∧
        ((∀ m ∈ measured, ¬0 < m.2) → rest.head?.map Prod.snd = left.head?) ∧
        (rest = [] ↔ left = []) := by
  intro g outcome first
  obtain ⟨stops, after, failure, htour, houtcome⟩ :=
    exists_tour_of_traverse (g := g) (c := c) shared
  have hnone : failure = none := by
    have hsame : outcome.failure = _ := congrArg Outcome.failure houtcome
    exact Option.map_eq_none_iff.mp (hsame.symm.trans hok)
  rw [hnone] at htour houtcome
  have hready : g.Ready (g.departure shared : Walk σ L) := ready_departure shared
  have hstart := g.startingPoint_waits (σ := σ) (L := L) shared
  have hcovered : Covered g c (g.departure shared) stops after := htour.covered hready hstart
  have hdealings : dealings outcome.journal = (g.deeds c stops).filterMap Deed.event := by
    show dealings (g.traverse c shared).journal = _
    rw [houtcome]
    exact hcovered.events
  refine ⟨stops, after, htour, houtcome, ?_, ?_, ?_, fun before w center rest hsplit => ?_⟩
  · rw [← hcovered.handed, ← hdealings, filterMap_handed_dealings]
    rfl
  · rw [← calls_of_tour g c htour hready hstart, ← hdealings, filterMap_pair_dealings]
    rfl
  · rw [htour.head?_eq, startingPoint_eq, first_edited, smallest_departure]
  · intro left measured
    rw [hsplit] at htour
    obtain ⟨between, farthest, hvisited, hready', hmem, hrest, hpending⟩ :=
      htour.stop hready hstart
    have hleft : between.pending.toList = left :=
      toList_eq pairwise_remaining fun id => by rw [hpending, mem_departure, mem_remaining]
    have hnext : rest.head?.map Prod.snd = farthest.or left.head? := by
      rw [hrest.head?_eq, Walk.smallest, hleft]
    have hmeasured : measured =
        (g.visitGauges c w center).filter fun m => between.pending.contains m.1 := by
      refine List.filter_congr fun m _ => ?_
      rw [Bool.eq_iff_iff, decide_eq_true_iff, ← ExtTreeSet.mem_iff_contains, ← hleft,
        ExtTreeSet.mem_toList]
    obtain ⟨⟨d, hleads⟩, -⟩ := hready'.leads hmem hvisited
    rw [← hmeasured] at hleads
    refine ⟨?_, ?_, ?_, ?_⟩
    · have hsub : (measured.map Prod.fst).Sublist (g.neighbors center) :=
        (List.filter_sublist.map Prod.fst).trans (g.visitGauges_sublist c center w)
      exact (precedes_flatMap _ ExtTreeSet.ordered_toList
        (fun _ => ExtTreeSet.ordered_toList) _).sublist hsub
    · rintro ⟨m, hm, hpos⟩
      rcases hleads with ⟨-, -, hall⟩ | ⟨m', hfarthest, -, -, hfar⟩
      · exact absurd hpos (hall m hm)
      · exact ⟨m', hfar, by rw [hnext, hfarthest, Option.some_or]⟩
    · intro hall
      rcases hleads with ⟨hfarthest, -, -⟩ | ⟨m', -, -, hpos, hfar⟩
      · rw [hnext, hfarthest, Option.none_or]
      · obtain ⟨_, _, hin, -⟩ := hfar.first
        exact absurd hpos (hall m' (hin ▸ List.mem_append_right _ List.mem_cons_self))
    · have hempty : rest = [] ↔ farthest.or left.head? = none := by
        rw [← hnext, Option.map_eq_none_iff, List.head?_eq_none_iff]
      rw [hempty, Option.or_eq_none_iff, List.head?_eq_none_iff, and_iff_right_iff_imp]
      intro hnil
      -- A farthest one would wait.
      cases hfarthest : farthest with
      | none => rfl
      | some id =>
        have hwaits := ExtTreeSet.mem_toList.mpr (g.farthest_waits c hvisited id hfarthest)
        rw [hleft, hnil] at hwaits
        cases hwaits

/-- Three primaries in one cell, the last of them far from all others. -/
def outlier : List (Edit Bool Bool) :=
  let intake : Intake Bool Bool := ⟨fun _ far => .ok far, fun _ => ⟨[⟨⟨[0]⟩, true⟩], none⟩⟩
  [.add intake ⟨[0]⟩ true false, .add intake ⟨[1]⟩ true false, .add intake ⟨[2]⟩ true true]

/-- Plain collaborators for whom a far value is at distance two, and all others at distance one. -/
def outlying : Collaborators Unit Bool Unit (PlainList Bool) where
  lists := PlainList.kind Unit
  measure _ far s := (.ok ⟨if far then 2 else 1, ()⟩, s)
  complete _ _ _ s := (.ok (), s)

/-- The far primary is visited before the near one, though it is out of range. -/
theorem outlier_visited_second :
    let g : Group Bool := edited 1 ⟨⟨[0]⟩, true⟩ outlier
    ∃ stops after, Tour g outlying (g.departure ()) g.startingPoint stops after none ∧
      stops.map Prod.snd = [⟨[0]⟩, ⟨[2]⟩, ⟨[1]⟩] := by
  intro g
  have hok : (g.traverse outlying ()).failure = none := by decide +kernel
  have hnotified : (g.traverse outlying ()).notified.map Prod.fst = [⟨[0]⟩, ⟨[2]⟩, ⟨[1]⟩] := by
    decide +kernel
  obtain ⟨stops, after, htour, -, hstops, -⟩ :=
    traversal_is_greedy 1 ⟨⟨[0]⟩, true⟩ outlier outlying () hok
  exact ⟨stops, after, htour, hstops.symm.trans hnotified⟩

end Group

end DensityClustering
