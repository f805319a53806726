import DensityClustering.Proofs.Neighbor.Deeds
import DensityClustering.Proofs.Neighbor.History

/-!
What happens to plain lists in a visit: a neighbour that is in range goes to the list of the center,
and the center goes to the list of that neighbour if it is a primary that still waits.
-/

namespace DensityClustering

open Std (ExtTreeSet)

/-- One more entry, if it passes. -/
theorem filterMap_filter_concat {α β : Type} (p : α → Bool) (f : α → Option β) (l : List α) (a : α) :
    ((l ++ [a]).filter p).filterMap f =
      (l.filter p).filterMap f ++ if p a then (f a).toList else [] := by
  rw [List.filter_append, List.filterMap_append]
  congr 1
  cases hp : p a with
  | true =>
    rw [if_pos rfl, List.filter_cons_of_pos hp]
    cases hf : f a with
    | none => exact List.filterMap_cons_none hf
    | some b => exact List.filterMap_cons_some hf
  | false =>
    rw [if_neg Bool.false_ne_true, List.filter_cons_of_neg (Bool.eq_false_iff.mp hp)]
    rfl

namespace PlainList

variable {V : Type}

/-- Plain lists beside a shared state that they leave alone. -/
def beside (σ C : Type) : ListKind σ V C (PlainList V) where
  build _ _ shared := (empty, shared)
  add l _ id value shared := (true, ⟨l.entries ++ [(id, value)]⟩, shared)
  infer _ _ _ _ := .none

theorem beside_unit (C : Type) : (beside Unit C : ListKind Unit V C (PlainList V)) = kind C := rfl

end PlainList

namespace NeighborIndex

variable {σ V C : Type} {index index' : NeighborIndex σ (PlainList V)} {id id' : ItemId}

/-- What the list of an id holds, if there is one. -/
def entriesOf (index : NeighborIndex σ (PlainList V)) (id : ItemId) : List (ItemId × V) :=
  (index.find id).elim [] PlainList.entries

theorem entriesOf_congr (h : index'.slots[id']? = index.slots[id]?) :
    index'.entriesOf id' = index.entriesOf id := by
  unfold entriesOf find
  rw [h]

theorem entriesOf_of_find {list : PlainList V} (h : index.find id = some list) :
    index.entriesOf id = list.entries := by
  rw [entriesOf, h, Option.elim_some]

theorem entriesOf_put (list : PlainList V) : (index.put id list).entriesOf id' =
    if id' = id then list.entries else index.entriesOf id' := by
  by_cases hid : id' = id
  · rw [if_pos hid]
    apply entriesOf_of_find
    rw [find_eq_some, slots_put, if_pos hid]
  · rw [if_neg hid]
    apply entriesOf_congr
    rw [slots_put, if_neg hid]

/-- A list is empty when it is built. -/
theorem exists_init (v : V) (h : index.slots[id]? ≠ some .emptied) :
    ∃ index' list, index.init (PlainList.beside σ C) id v = (index', some list) ∧
      index'.find id = some list ∧ (∀ id', index'.entriesOf id' = index.entriesOf id') ∧
      ∀ id', id' ≠ id → index'.slots[id']? = index.slots[id']? := by
  rcases init_cases (PlainList.beside σ C) index id v with
    ⟨hgone, -⟩ | ⟨index', list, -, hinit, hlive, hothers⟩
  · exact absurd hgone h
  refine ⟨index', list, hinit, find_eq_some.mpr hlive, fun id' => ?_, hothers⟩
  by_cases hid : id' = id
  · rw [hid, entriesOf_of_find (find_eq_some.mpr hlive)]
    cases hslot : index.slots[id]? with
    | none =>
      have hnone : index.find id = none := by
        unfold find
        rw [hslot]
      rw [init_of_none (PlainList.beside σ C) index v hslot] at hinit
      cases hinit
      rw [entriesOf, hnone]
      rfl
    | some slot =>
      cases slot with
      | live list' =>
        rw [init_of_live _ v hslot] at hinit
        cases hinit
        exact (entriesOf_of_find (find_eq_some.mpr hslot)).symm
      | emptied => exact absurd hslot h
  · exact entriesOf_congr (hothers id' hid)

theorem entriesOf_offer (profile : DistanceProfile C) (v : V) (t : ItemId) (u : V)
    (h : index.slots[id]? ≠ some .emptied) :
    (index.offer (PlainList.beside σ C) profile id v t u).1.entriesOf id' =
      if id' = id then index.entriesOf id ++ [(t, u)] else index.entriesOf id' := by
  obtain ⟨index', list, hinit, hfind, hsame, -⟩ :
    ∃ index' list, index.init (PlainList.beside σ C) id v = (index', some list) ∧
      index'.find id = some list ∧ (∀ id', index'.entriesOf id' = index.entriesOf id') ∧ _ :=
    exists_init v h
  unfold offer
  rw [hinit]
  dsimp only
  rw [entriesOf_put, ← hsame id, entriesOf_of_find hfind, ← hsame id']
  rfl

/-- An addition goes to the list of the center, and to that of a neighbour that is a primary. -/
theorem entriesOf_add {center neighbor : ItemId} {primary : Bool} (profile : DistanceProfile C)
    (u v : V) (hne : neighbor ≠ center) (hcenter : index.slots[center]? ≠ some .emptied)
    (hneighbor : primary = true → index.slots[neighbor]? ≠ some .emptied) :
    (index.add (PlainList.beside σ C) profile center u neighbor v primary).1.entriesOf id =
      if id = center then index.entriesOf center ++ [(neighbor, v)]
      else if id = neighbor ∧ primary = true then index.entriesOf neighbor ++ [(center, u)]
      else index.entriesOf id := by
  cases primary with
  | false =>
    rw [add_false, entriesOf_offer profile u neighbor v hcenter]
    simp
  | true =>
    have hopen : (index.offer (PlainList.beside σ C) profile center u neighbor v).1.slots[neighbor]? ≠
        some .emptied := fun h => hneighbor rfl ((slots_offer_eq_emptied _).mp h)
    rw [add_true, entriesOf_offer profile v center u hopen,
      entriesOf_offer profile u neighbor v hcenter, entriesOf_offer profile u neighbor v hcenter,
      if_neg hne]
    by_cases hid : id = center
    · have hidn : id ≠ neighbor := fun h => hne (h.symm.trans hid)
      rw [if_neg hidn, if_pos hid, if_pos hid]
    · rw [if_neg hid, if_neg hid]
      simp

theorem infer_beside (neighbor : ItemId) (v : V) (h : index.find id ≠ none) :
    index.infer (PlainList.beside σ C) id neighbor v = .none := by
  unfold infer
  split
  · rfl
  · next hnone => exact absurd hnone h

end NeighborIndex

namespace Group

variable {V σ C : Type} (g : Group V) (profile : V → V → DistanceProfile C)

/-- Who keeps plain lists, measures without failing, and may do anything with what is complete. -/
def plainly (profile : V → V → DistanceProfile C) (tick : V → V → σ → σ)
    (complete : ItemId → V → PlainList V → σ → Except String Unit × σ) :
    Collaborators σ V C (PlainList V) where
  lists := PlainList.beside σ C
  measure a b shared := (.ok (profile a b), tick a b shared)
  complete := complete

/-- The value stored for an id. -/
def value (id : ItemId) : Option V := (g.index.primary id).or (g.index.other id)

/-- An id with its value. -/
def entry (id : ItemId) : Option (ItemId × V) := (g.value id).map fun v => (id, v)

/-- Some cell holds both ids. -/
def sharesCell (a b : ItemId) : Bool :=
  (g.index.partitionsOf a).any fun key => (g.index.partitionsOf b).contains key

/-- Both ids are stored, and measured from the first one the second one is not too far. -/
def inRange (a b : ItemId) : Bool :=
  match g.value a, g.value b with
  | some u, some v => decide ((profile u v).distance ≤ g.maxDistance)
  | _, _ => false

/-- What a list holds of the centers visited before its own. -/
def earlier (visited : List ItemId) (center : ItemId) : List (ItemId × V) :=
  (visited.filter fun b => g.sharesCell b center && g.inRange profile b center).filterMap g.entry

/-- The id is one of the others or was not visited yet, and it is in range. -/
def finds (visited : List ItemId) (center id : ItemId) : Bool :=
  ((g.index.other id).isSome || !visited.contains id) && g.inRange profile center id

/-- What a center finds among some of its neighbours. -/
def found (visited : List ItemId) (center : ItemId) (neighbors : List ItemId) :
    List (ItemId × V) :=
  (neighbors.filter (g.finds profile visited center)).filterMap g.entry

variable {g profile} {tick : V → V → σ → σ}
  {complete : ItemId → V → PlainList V → σ → Except String Unit × σ}
  {visited ids : List ItemId} {center n : ItemId}

theorem candidate_eq_some {pending : ExtTreeSet ItemId} {v : V} {primary : Bool} :
    g.candidate pending n = some (v, primary) ↔
      (primary = true ∧ g.index.primary n = some v ∧ n ∈ pending) ∨
      (primary = false ∧ g.index.primary n = none ∧ g.index.other n = some v) := by
  unfold candidate
  cases hprimary : g.index.primary n with
  | none =>
    cases hother : g.index.other n with
    | none => simp
    | some w => simp [eq_comm, and_comm]
  | some w =>
    by_cases hmem : n ∈ pending
    · have hin : pending.contains n = true := ExtTreeSet.mem_iff_contains.mp hmem
      dsimp only
      rw [if_pos hin]
      simp [hmem, eq_comm, and_comm]
    · have hout : ¬pending.contains n = true := fun h => hmem (ExtTreeSet.mem_iff_contains.mpr h)
      dsimp only
      rw [if_neg hout]
      simp [hmem]

theorem inRange_eq {u v : V} (hcenter : g.value center = some u) (hn : g.value n = some v) :
    g.inRange profile center n = decide ((profile u v).distance ≤ g.maxDistance) := by
  unfold inRange
  rw [hcenter, hn]

theorem found_concat : g.found profile visited center (ids ++ [n]) =
    g.found profile visited center ids ++
      if g.finds profile visited center n then (g.entry n).toList else [] :=
  filterMap_filter_concat ..

theorem value_of_candidate {pending : ExtTreeSet ItemId} {v : V} {primary : Bool}
    (h : g.candidate pending n = some (v, primary)) : g.value n = some v := by
  unfold value
  rcases candidate_eq_some.mp h with ⟨-, hv, -⟩ | ⟨-, hnone, hv⟩
  · rw [hv]
    rfl
  · rw [hnone, hv]
    rfl

/-- A candidate in range goes to the list of the center, and gets the center if it is a primary. -/
theorem consider_plainly {s s' : Scan σ (PlainList V)} {u : V} (hvalue : g.value center = some u)
    (hlive : s.walk.lists.find center ≠ none) (hne : n ≠ center)
    (hunused : n ∈ s.walk.pending → s.walk.lists.slots[n]? ≠ some Slot.emptied)
    (h : g.consider (plainly profile tick complete) center u n s = (s', none)) :
    (s' = s ∧ g.candidate s.walk.pending n = none) ∨
    ∃ v primary, g.candidate s.walk.pending n = some (v, primary) ∧
      s'.walk.pending = s.walk.pending ∧
      ∀ id, s'.walk.lists.entriesOf id =
        if g.inRange profile center n = true then
          if id = center then s.walk.lists.entriesOf center ++ [(n, v)]
          else if id = n ∧ primary = true then s.walk.lists.entriesOf n ++ [(center, u)]
          else s.walk.lists.entriesOf id
        else s.walk.lists.entriesOf id := by
  rcases g.consider_cases _ h with hnothing | ⟨v, primary, hcandidate, hcase⟩
  · exact Or.inl hnothing
  have hanswer : s.walk.lists.infer (plainly profile tick complete).lists center n v = .none :=
    NeighborIndex.infer_beside n v hlive
  rcases hcase with ⟨-, hskip⟩ | ⟨-, hremove⟩ | ⟨p, shared, -, hmeasure, hpending, hlists, -⟩
  · rw [hanswer] at hskip
    cases hskip
  · rw [hanswer] at hremove
    cases hremove
  refine Or.inr ⟨v, primary, hcandidate, hpending, fun id => ?_⟩
  have hp : p = profile u v := by
    cases hmeasure
    rfl
  have hopen : s.walk.lists.slots[center]? ≠ some Slot.emptied := by
    intro he
    apply hlive
    unfold NeighborIndex.find
    rw [he]
  have hwaits : primary = true → s.walk.lists.slots[n]? ≠ some Slot.emptied := by
    intro hprimary
    rcases candidate_eq_some.mp hcandidate with ⟨-, -, hmem⟩ | ⟨hother, -⟩
    · exact hunused hmem
    · rw [hprimary] at hother
      cases hother
  rw [hlists, hp, inRange_eq hvalue (value_of_candidate hcandidate)]
  by_cases hle : (profile u v).distance ≤ g.maxDistance
  · rw [if_pos hle, if_pos (decide_eq_true hle)]
    exact NeighborIndex.entriesOf_add (profile u v) u v hne hopen hwaits
  · rw [if_neg hle, if_neg fun hin => hle (of_decide_eq_true hin)]
    rfl

/-- Where a visit stands when some neighbours were dealt with. -/
structure Amid (g : Group V) (profile : V → V → DistanceProfile C) (visited : List ItemId)
    (center : ItemId) (told : List (ItemId × PlainList V)) (seen : List ItemId)
    (s : Scan σ (PlainList V)) : Prop where
  pending : ∀ id, id ∈ s.walk.pending ↔
    (g.index.primary id).isSome = true ∧ id ∉ visited ∧ id ≠ center
  live : s.walk.lists.find center ≠ none
  unused : ∀ id ∈ s.walk.pending, s.walk.lists.slots[id]? ≠ some Slot.emptied
  own : s.walk.lists.entriesOf center =
    g.earlier profile visited center ++ g.found profile visited center seen
  others : ∀ id ∈ s.walk.pending, s.walk.lists.entriesOf id =
    g.earlier profile visited id ++
      if id ∈ seen ∧ g.inRange profile center id = true then (g.entry center).toList else []
  handed : s.walk.lists.journal.reverse.filterMap Event.handed = told

/-- A neighbour that is not a candidate is out of range or a primary that was visited. -/
theorem found_of_no_candidate {pending : ExtTreeSet ItemId} (hsound : g.index.Sound)
    (hpending : ∀ id, id ∈ pending ↔
      (g.index.primary id).isSome = true ∧ id ∉ visited ∧ id ≠ center)
    (hne : n ≠ center) (h : g.candidate pending n = none) :
    g.finds profile visited center n = false := by
  unfold finds
  cases hprimary : g.index.primary n with
  | some v =>
    have hother : g.index.other n = none := by
      apply (hsound.exclusive n).resolve_left
      show ¬g.index.primary n = none
      rw [hprimary]
      exact Option.some_ne_none v
    have hvisited : n ∈ visited := by
      by_contra hno
      have hwaits : n ∈ pending := (hpending n).mpr ⟨by rw [hprimary]; rfl, hno, hne⟩
      have hsome : g.candidate pending n = some (v, true) :=
        candidate_eq_some.mpr (Or.inl ⟨rfl, hprimary, hwaits⟩)
      rw [h] at hsome
      cases hsome
    simp [hother, hvisited]
  | none =>
    cases hother : g.index.other n with
    | some v =>
      have hsome : g.candidate pending n = some (v, false) :=
        candidate_eq_some.mpr (Or.inr ⟨rfl, hprimary, hother⟩)
      rw [h] at hsome
      cases hsome
    | none =>
      have hvalue : g.value n = none := by
        unfold value
        rw [hprimary, hother]
        rfl
      have hout : g.inRange profile center n = false := by
        unfold inRange
        rw [hvalue]
        cases g.value center with
        | none => rfl
        | some u => rfl
      rw [hout, Bool.and_false]

/-- A candidate in range is found. -/
theorem finds_of_candidate {pending : ExtTreeSet ItemId} {v : V} {primary : Bool}
    (hpending : n ∈ pending → n ∉ visited) (h : g.candidate pending n = some (v, primary)) :
    g.finds profile visited center n = g.inRange profile center n := by
  unfold finds
  rcases candidate_eq_some.mp h with ⟨-, -, hmem⟩ | ⟨-, -, hother⟩
  · simp [hpending hmem]
  · simp [hother]

section Step

variable {told : List (ItemId × PlainList V)} {seen : List ItemId}
  {s s' : Scan σ (PlainList V)} {u : V}

theorem handed_consider (h : g.consider (plainly profile tick complete) center u n s = (s', none)) :
    s'.walk.lists.journal.reverse.filterMap Event.handed =
      s.walk.lists.journal.reverse.filterMap Event.handed := by
  apply g.consider_keeps _ (I := fun index => index.journal.reverse.filterMap Event.handed =
    s.walk.lists.journal.reverse.filterMap Event.handed) ?_ ?_ h rfl
  · intro index shared hi
    rw [← hi]
    show (Event.measured center n :: index.journal).reverse.filterMap Event.handed = _
    rw [List.reverse_cons, List.filterMap_append]
    exact List.append_nil _
  · intro index profile id v t u hi
    rw [← filterMap_handed_dealings, NeighborIndex.dealings_offer, filterMap_handed_dealings, hi]

theorem Amid.consider (hsound : g.index.Sound) (h : Amid g profile visited center told seen s)
    (hvalue : g.value center = some u) (hnew : n ∉ seen) (hne : n ≠ center)
    (hstep : g.consider (plainly profile tick complete) center u n s = (s', none)) :
    Amid g profile visited center told (seen ++ [n]) s' := by
  -- Only `n` is seen in addition, and it matters when it is in range.
  have hmore (id : ItemId) (hid : id ≠ n) :
      (id ∈ seen ++ [n] ∧ g.inRange profile center id = true) ↔
        (id ∈ seen ∧ g.inRange profile center id = true) := by
    rw [List.mem_append, List.mem_singleton, or_iff_left hid]
  rcases consider_plainly hvalue h.live hne (h.unused n) hstep with
    ⟨hs', hcandidate⟩ | ⟨v, primary, hcandidate, hpending, hlists⟩
  · -- Nothing happens, and nothing is found.
    rw [hs']
    refine ⟨h.pending, h.live, h.unused, ?_, fun id hid => ?_, h.handed⟩
    · rw [h.own, found_concat, found_of_no_candidate hsound h.pending hne hcandidate,
        if_neg Bool.false_ne_true, List.append_nil]
    · have hidn : id ≠ n := by
        intro he
        obtain ⟨w, hw⟩ := Option.isSome_iff_exists.mp ((h.pending id).mp hid).1
        rw [he] at hid hw
        rw [candidate_eq_some.mpr (Or.inl ⟨rfl, hw, hid⟩)] at hcandidate
        cases hcandidate
      rw [h.others id hid]
      simp only [hmore id hidn]
  have hlive : s'.walk.lists.find center ≠ none :=
    g.consider_keeps _ (I := fun index => index.find center ≠ none) (fun _ _ hi => hi)
      (fun _ _ _ _ _ _ hi => NeighborIndex.find_offer_ne_none _ hi) hstep h.live
  have hunused (id : ItemId) (hid : s.walk.lists.slots[id]? ≠ some Slot.emptied) :
      s'.walk.lists.slots[id]? ≠ some Slot.emptied :=
    g.consider_keeps _ (I := fun index => index.slots[id]? ≠ some Slot.emptied)
      (fun _ _ hi => hi)
      (fun _ _ _ _ _ _ hi => (not_congr (NeighborIndex.slots_offer_eq_emptied _)).mpr hi) hstep hid
  have hfinds : g.finds profile visited center n = g.inRange profile center n :=
    finds_of_candidate (fun hmem => ((h.pending n).mp hmem).2.1) hcandidate
  have hentry : g.entry n = some (n, v) := by
    rw [entry, value_of_candidate hcandidate]
    rfl
  refine ⟨fun id => ?_, hlive, fun id hid => ?_, ?_, fun id hid => ?_,
    (handed_consider hstep).trans h.handed⟩
  · rw [hpending]
    exact h.pending id
  · rw [hpending] at hid
    exact hunused id (h.unused id hid)
  · rw [hlists, found_concat, h.own, if_pos rfl, hfinds, hentry]
    cases g.inRange profile center n with
    | false => rw [if_neg Bool.false_ne_true, if_neg Bool.false_ne_true, List.append_nil]
    | true => exact List.append_assoc ..
  · rw [hpending] at hid
    rw [hlists, if_neg ((h.pending id).mp hid).2.2]
    by_cases hidn : id = n
    · -- A neighbour that waits is a primary, and gets the center.
      have hprimary : primary = true := by
        rcases candidate_eq_some.mp hcandidate with ⟨hprimary, -⟩ | ⟨-, hnone, -⟩
        · exact hprimary
        · have hsome := ((h.pending id).mp hid).1
          rw [hidn, hnone] at hsome
          cases hsome
      have hcenter : g.entry center = some (center, u) := by
        rw [entry, hvalue]
        rfl
      rw [hidn] at hid ⊢
      have hbefore := h.others n hid
      rw [if_neg fun hm => hnew hm.1, List.append_nil] at hbefore
      rw [hbefore, hcenter]
      cases g.inRange profile center n with
      | false => simp
      | true => simp [hprimary]
    · rw [if_neg fun hm : id = n ∧ primary = true => hidn hm.1, ite_self, h.others id hid]
      simp only [hmore id hidn]

end Step

end Group

end DensityClustering
