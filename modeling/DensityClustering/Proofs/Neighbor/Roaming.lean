import DensityClustering.Neighbor.Traversal

/-!
How a traversal goes on: one equation for each way in which a walk ends or continues, and from them
the induction that carries an invariant from visit to visit and, within a visit, from neighbour to
neighbour.
-/

namespace DensityClustering

open Std (ExtTreeMap ExtTreeSet)

namespace NeighborIndex

variable {σ V C L : Type} {index : NeighborIndex σ L} {id : ItemId} {list : L}

theorem slots_put (id' : ItemId) : (index.put id list).slots[id']? =
    if id' = id then some (.live list) else index.slots[id']? := by
  show (index.slots.insert id (.live list))[id']? = _
  rw [ExtTreeMap.getElem?_insert]
  simp only [Std.LawfulEqCmp.compare_eq_iff_eq, eq_comm (a := id')]

theorem slots_empty (id' : ItemId) : (index.empty id).slots[id']? =
    if id' = id then some .emptied else index.slots[id']? := by
  show (index.slots.insert id .emptied)[id']? = _
  rw [ExtTreeMap.getElem?_insert]
  simp only [Std.LawfulEqCmp.compare_eq_iff_eq, eq_comm (a := id')]

theorem find_eq_some : index.find id = some list ↔ index.slots[id]? = some (.live list) := by
  unfold find
  split
  · next l h => simp [h]
  · next h =>
    constructor
    · intro e
      cases e
    · exact fun e => absurd e (h list)

variable (kind : ListKind σ V C L)

theorem init_of_live (v : V) (h : index.slots[id]? = some (.live list)) :
    index.init kind id v = (index, some list) := by
  simp only [init, h]

theorem init_of_emptied (v : V) (h : index.slots[id]? = some .emptied) :
    index.init kind id v = (index, none) := by
  simp only [init, h]

/-- A neighbour that is no primary is only offered to the center. -/
theorem add_false (profile : DistanceProfile C) (v : V) (t : ItemId) (u : V) :
    (index.add kind profile id v t u false).1 = (index.offer kind profile id v t u).1 := rfl

theorem add_true (profile : DistanceProfile C) (v : V) (t : ItemId) (u : V) :
    (index.add kind profile id v t u true).1 =
      ((index.offer kind profile id v t u).1.offer kind profile t u id v).1 := rfl

end NeighborIndex

namespace Group

variable {P V σ C L : Type} (g : Group V) (c : Collaborators σ V C L)

section Roam

variable {w after : Walk σ L} {next farthest : Option ItemId} {center : ItemId}

theorem roam_of_none (h : next.or w.smallest = none) : g.roam c w next = (w, none) := by
  rw [roam.eq_def]
  simp only [h]

theorem roam_of_not_mem (h : next.or w.smallest = some center) (hmem : center ∉ w.pending) :
    g.roam c w next = (w, none) := by
  rw [roam.eq_def]
  simp only [h, hmem, dite_false]

theorem roam_of_error (h : next.or w.smallest = some center) (hmem : center ∈ w.pending)
    {cause : TraversalCause} (hvisit : g.visit c w center = (after, .error cause)) :
    g.roam c w next = (after, some (center, cause)) := by
  rw [roam.eq_def]
  simp only [h, hmem, dite_true]
  split
  · next heq =>
    rw [hvisit] at heq
    cases heq
    rfl
  · next heq =>
    rw [hvisit] at heq
    cases heq

theorem roam_of_ok (h : next.or w.smallest = some center) (hmem : center ∈ w.pending)
    (hvisit : g.visit c w center = (after, .ok farthest)) :
    g.roam c w next = g.roam c after farthest := by
  rw [roam.eq_def]
  simp only [h, hmem, dite_true]
  split
  · next heq =>
    rw [hvisit] at heq
    cases heq
  · next heq =>
    rw [hvisit] at heq
    cases heq
    rfl

theorem smallest_eq_none (h : w.smallest = none) (id : ItemId) : id ∉ w.pending := by
  intro hid
  rw [Walk.smallest, List.head?_eq_none_iff] at h
  have := ExtTreeSet.mem_toList.mpr hid
  rw [h] at this
  cases this

theorem mem_of_smallest (h : w.smallest = some center) : center ∈ w.pending :=
  ExtTreeSet.mem_toList.mp (List.mem_of_head? h)

/-- What holds at the start of a walk and after each of its visits holds at its end, when nothing is
left to visit. -/
theorem roam_invariant {I : Walk σ L → Prop}
    (hvisit : ∀ w center after farthest, I w → center ∈ w.pending →
      g.visit c w center = (after, .ok farthest) →
        I after ∧ ∀ id, farthest = some id → id ∈ after.pending)
    {w after : Walk σ L} {next : Option ItemId} (hw : I w)
    (hnext : ∀ id, next = some id → id ∈ w.pending) (hroam : g.roam c w next = (after, none)) :
    I after ∧ ∀ id, id ∉ after.pending := by
  induction w, next using roam.induct g c with
  | case1 w next hnone =>
    rw [roam_of_none g c hnone] at hroam
    cases hroam
    rw [Option.or_eq_none_iff] at hnone
    exact ⟨hw, smallest_eq_none hnone.2⟩
  | case2 w next center h hmem after cause hv =>
    rw [roam_of_error g c h hmem hv] at hroam
    cases hroam
  | case3 w next center h hmem between farthest hv ih =>
    rw [roam_of_ok g c h hmem hv] at hroam
    obtain ⟨hbetween, hfarthest⟩ := hvisit w center between farthest hw hmem hv
    exact ih hbetween hfarthest hroam
  | case4 w next center h hmem =>
    -- A next center always waits, so that the walk never stops early.
    refine absurd ?_ hmem
    rcases Option.or_eq_some_iff.mp h with hn | ⟨-, hs⟩
    · exact hnext center hn
    · exact mem_of_smallest hs

end Roam

section Scan

variable {center : ItemId} {value : V}

/-- What holds at the start of a visit and after each neighbour holds once all are dealt with. -/
theorem scan_invariant {I : List ItemId → Scan σ L → Prop} (neighbors : List ItemId)
    (hstep : ∀ seen n rest s s', neighbors = seen ++ n :: rest → I seen s →
      g.consider c center value n s = (s', none) → I (seen ++ [n]) s')
    {s s' : Scan σ L} (hs : I [] s) (hscan : g.scan c center value neighbors s = (s', none)) :
    I neighbors s' := by
  -- The induction is on the neighbours that remain, with those that were seen in front.
  suffices h : ∀ (rest seen : List ItemId) (s : Scan σ L), neighbors = seen ++ rest → I seen s →
      g.scan c center value rest s = (s', none) → I neighbors s' from
    h neighbors [] s rfl hs hscan
  intro rest
  induction rest with
  | nil =>
    intro seen s hsplit hs hscan
    cases hscan
    rw [hsplit, List.append_nil]
    exact hs
  | cons n rest ih =>
    intro seen s hsplit hs hscan
    unfold scan at hscan
    cases hc : g.consider c center value n s with
    | mk between failure =>
      rw [hc] at hscan
      cases failure with
      | some e => cases hscan
      | none =>
        refine ih (seen ++ [n]) between ?_ (hstep seen n rest s between hsplit hs hc) hscan
        rw [hsplit, List.append_assoc, List.singleton_append]

/-- A neighbour is left out, dropped from the traversal, or measured and offered when in range. -/
theorem consider_cases {neighbor : ItemId} {s s' : Scan σ L}
    (h : g.consider c center value neighbor s = (s', none)) :
    (s' = s ∧ g.candidate s.walk.pending neighbor = none) ∨
    ∃ v primary, g.candidate s.walk.pending neighbor = some (v, primary) ∧
      ((s' = s ∧ s.walk.lists.infer c.lists center neighbor v = .skip) ∨
      (s' = { s with walk.pending := s.walk.pending.erase neighbor } ∧
        s.walk.lists.infer c.lists center neighbor v = .remove) ∨
      ∃ profile shared, s.walk.lists.infer c.lists center neighbor v = .none ∧
        c.measure value v s.walk.lists.shared = (.ok profile, shared) ∧
        s'.walk.pending = s.walk.pending ∧
        s'.walk.lists =
          (if profile.distance ≤ g.maxDistance then
            (({ s.walk.lists with shared := shared }.note (.measured center neighbor)).add c.lists
              profile center value neighbor v primary).1
          else { s.walk.lists with shared := shared }.note (.measured center neighbor)) ∧
        ((s.distance < profile.distance ∧ neighbor ∈ s.walk.pending ∧
            s'.distance = profile.distance ∧ s'.farthest = some neighbor) ∨
          (¬(s.distance < profile.distance ∧ neighbor ∈ s.walk.pending) ∧
            s'.distance = s.distance ∧ s'.farthest = s.farthest))) := by
  unfold consider at h
  split at h
  · next hc =>
    cases h
    exact Or.inl ⟨rfl, hc⟩
  · next v primary hc =>
    refine Or.inr ⟨v, primary, hc, ?_⟩
    split at h
    · next hi =>
      cases h
      exact Or.inl ⟨rfl, hi⟩
    · next hi =>
      cases h
      exact Or.inr (Or.inl ⟨rfl, hi⟩)
    · next hi =>
      cases hm : c.measure value v s.walk.lists.shared with
      | mk outcome shared =>
        simp only [hm] at h
        cases outcome with
        | error e => cases h
        | ok profile =>
          simp only at h
          refine Or.inr (Or.inr ⟨profile, shared, hi, rfl, ?_⟩)
          split at h
          · next hfar =>
            rw [Bool.and_eq_true, decide_eq_true_iff] at hfar
            cases h
            exact ⟨rfl, rfl, Or.inl ⟨hfar.1, hfar.2, rfl, rfl⟩⟩
          · next hnear =>
            rw [Bool.and_eq_true, decide_eq_true_iff] at hnear
            cases h
            exact ⟨rfl, rfl, Or.inr ⟨hnear, rfl, rfl⟩⟩

end Scan

/-- A visit of a primary ends at once when its list is gone; otherwise all neighbours are dealt with
and the list is handed over. -/
theorem visit_cases {w after : Walk σ L} {center : ItemId} {value : V} {farthest : Option ItemId}
    (hvalue : g.index.primary center = some value)
    (h : g.visit c w center = (after, .ok farthest)) :
    (∃ lists, w.lists.init c.lists center value = (lists, none) ∧
      after = ⟨lists, w.pending.erase center⟩ ∧ farthest = none) ∨
    ∃ lists list s, w.lists.init c.lists center value = (lists, some list) ∧
      g.scan c center value (g.neighbors center) ⟨⟨lists, w.pending.erase center⟩, 0, none⟩ =
        (s, none) ∧
      finish c center value s.walk = (after, none) ∧ farthest = s.farthest := by
  unfold visit at h
  simp only [hvalue] at h
  cases hi : w.lists.init c.lists center value with
  | mk lists list =>
    simp only [hi] at h
    cases list with
    | none =>
      cases h
      exact Or.inl ⟨lists, rfl, rfl, rfl⟩
    | some list =>
      simp only at h
      split at h
      · cases h
      · next s hs =>
        split at h
        · cases h
        · next hf =>
          cases h
          exact Or.inr ⟨lists, list, s, rfl, hs, hf, rfl⟩

theorem mem_neighbors {center id : ItemId} :
    id ∈ g.neighbors center ↔
      id ≠ center ∧ ∃ key ∈ g.index.partitionsOf center, id ∈ g.index.members key := by
  rw [neighbors, List.mem_eraseDups, List.mem_filter, decide_eq_true_eq, and_comm,
    PartitionIndex.coMembers, List.mem_flatMap]

theorem eraseDups_nodup (ids : List ItemId) : ids.eraseDups.Nodup := by
  induction hn : ids.length using Nat.strongRecOn generalizing ids with
  | ind n ih =>
    cases ids with
    | nil => exact List.nodup_nil
    | cons a ids =>
      rw [List.eraseDups_cons, List.nodup_cons, List.mem_eraseDups, List.mem_filter]
      refine ⟨fun h => by simp at h, ih _ ?_ _ rfl⟩
      rw [← hn, List.length_cons]
      exact Nat.lt_succ_of_le (List.length_filter_le ..)

theorem neighbors_nodup (center : ItemId) : (g.neighbors center).Nodup :=
  eraseDups_nodup _

end Group

end DensityClustering
