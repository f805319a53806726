import DensityClustering.Proofs.Neighbor.PlainLists
import DensityClustering.Proofs.Neighbor.Refusal

/-!
What plain lists hold when they are handed over: first the centers that were visited before and found
the list's own center in range, in the order of their visits, and then whatever that center found
itself, in the order in which its cells list it.
-/

namespace DensityClustering

open Std (ExtTreeMap ExtTreeSet)

section Order

variable (f : PartitionKey → List ItemId)

theorem eraseDups_sublist (ids : List ItemId) : ids.eraseDups.Sublist ids := by
  induction hn : ids.length using Nat.strongRecOn generalizing ids with
  | ind n ih =>
    cases ids with
    | nil => exact List.Sublist.refl _
    | cons a ids =>
      have hlength : (ids.filter fun b => !b == a).length < n := by
        rw [← hn, List.length_cons]
        exact Nat.lt_succ_of_le (List.length_filter_le ..)
      rw [List.eraseDups_cons]
      exact ((ih _ hlength _ rfl).trans List.filter_sublist).cons_cons a

/-- The first key that lists an id is an earlier one, or it is the same and the id is smaller. -/
def Precedes (keys : List PartitionKey) (a b : ItemId) : Prop :=
  ∃ ka kb, keys.find? (fun key => decide (a ∈ f key)) = some ka ∧
    keys.find? (fun key => decide (b ∈ f key)) = some kb ∧
    (compare ka kb = .lt ∨ (ka = kb ∧ compare a b = .lt))

/-- Ids listed key after key, each once, come in the order of the first key that lists them. -/
theorem precedes_flatMap {keys : List PartitionKey}
    (hkeys : keys.Pairwise fun k k' => compare k k' = .lt)
    (hids : ∀ key, (f key).Pairwise fun a b => compare a b = .lt) (p : ItemId → Bool) :
    ((keys.flatMap f).filter p).eraseDups.Pairwise (Precedes f keys) := by
  induction keys generalizing p with
  | nil => exact List.Pairwise.nil
  | cons key keys ih =>
    obtain ⟨hfirst, hrest⟩ := List.pairwise_cons.mp hkeys
    have hhere (a : ItemId) (ha : a ∈ f key) :
        (key :: keys).find? (fun key => decide (a ∈ f key)) = some key :=
      List.find?_cons_of_pos (decide_eq_true ha)
    have hlater (a : ItemId) (ha : a ∉ f key) :
        (key :: keys).find? (fun key => decide (a ∈ f key)) =
          keys.find? fun key => decide (a ∈ f key) :=
      List.find?_cons_of_neg (by simpa using ha)
    have hnew (a : ItemId) (ha : a ∈ ((keys.flatMap f).filter fun a =>
        !(List.elem a ((f key).filter p)) && p a).eraseDups) :
        a ∉ f key ∧ ∃ key ∈ keys, a ∈ f key := by
      rw [List.mem_eraseDups, List.mem_filter, Bool.and_eq_true, List.mem_flatMap] at ha
      refine ⟨fun hin => ?_, ha.1⟩
      have hmem : a ∈ (f key).filter p := List.mem_filter.mpr ⟨hin, ha.2.2⟩
      simp [hmem] at ha
    rw [List.flatMap_cons, List.filter_append, List.eraseDups_append, List.removeAll,
      List.filter_filter]
    refine List.pairwise_append.mpr ⟨?_, ?_, fun a ha b hb => ?_⟩
    -- both listed by the first key
    · have hsorted : ((f key).filter p).eraseDups.Pairwise fun a b => compare a b = .lt :=
        (hids key).sublist ((eraseDups_sublist _).trans List.filter_sublist)
      refine hsorted.imp_of_mem fun {a b} ha hb hlt => ?_
      rw [List.mem_eraseDups, List.mem_filter] at ha hb
      exact ⟨key, key, hhere a ha.1, hhere b hb.1, Or.inr ⟨rfl, hlt⟩⟩
    · refine (ih hrest _).imp_of_mem fun {a b} ha hb hab => ?_
      obtain ⟨ka, kb, hka, hkb, hlt⟩ := hab
      exact ⟨ka, kb, (hlater a (hnew a ha).1).trans hka, (hlater b (hnew b hb).1).trans hkb, hlt⟩
    -- only the first of them
    · rw [List.mem_eraseDups, List.mem_filter] at ha
      obtain ⟨hnot, k, hk, hin⟩ := hnew b hb
      obtain ⟨kb, hkb⟩ : ∃ kb, keys.find? (fun key => decide (b ∈ f key)) = some kb := by
        rw [← Option.isSome_iff_exists, List.find?_isSome]
        exact ⟨k, hk, decide_eq_true hin⟩
      exact ⟨key, kb, hhere a ha.1, (hlater b hnot).trans hkb,
        Or.inl (hfirst kb (List.mem_of_find?_eq_some hkb))⟩

end Order

namespace Group

variable {V σ C : Type} {g : Group V} {profile : V → V → DistanceProfile C}
  {tick : V → V → σ → σ} {complete : ItemId → V → PlainList V → σ → Except String Unit × σ}
  {visited : List ItemId} {center : ItemId}

variable (g profile) in
/-- What the list of a center holds when it is handed over after some visits. -/
def expected (visited : List ItemId) (center : ItemId) : List (ItemId × V) :=
  g.earlier profile visited center ++ g.found profile visited center (g.neighbors center)

/-- What was handed over, in order. -/
structure Told (g : Group V) (profile : V → V → DistanceProfile C)
    (told : List (ItemId × PlainList V)) : Prop where
  primary : ∀ id ∈ told.map Prod.fst, (g.index.primary id).isSome = true
  nodup : (told.map Prod.fst).Nodup
  exact : ∀ before c list later, told = before ++ (c, list) :: later →
    list.entries = g.expected profile (before.map Prod.fst) c

theorem Told.concat {told : List (ItemId × PlainList V)} (h : Told g profile told)
    (hprimary : (g.index.primary center).isSome = true) (hnew : center ∉ told.map Prod.fst)
    {list : PlainList V} (hlist : list.entries = g.expected profile (told.map Prod.fst) center) :
    Told g profile (told ++ [(center, list)]) := by
  refine ⟨fun id hid => ?_, ?_, fun before c l later hsplit => ?_⟩
  · rw [List.map_append, List.mem_append] at hid
    rcases hid with hid | hid
    · exact h.primary id hid
    · rw [List.mem_singleton.mp hid]
      exact hprimary
  · rw [List.map_append]
    refine List.nodup_append.mpr ⟨h.nodup, List.pairwise_singleton .., fun a ha b hb he => ?_⟩
    rw [he, List.mem_singleton.mp hb] at ha
    exact hnew ha
  · rcases List.eq_nil_or_concat later with hnil | ⟨rest, last, hlast⟩
    · rw [hnil] at hsplit
      obtain ⟨hbefore, hlast⟩ := List.append_inj' hsplit rfl
      cases hlast
      rw [← hbefore]
      exact hlist
    · rw [hlast, List.concat_eq_append, ← List.cons_append, ← List.append_assoc] at hsplit
      exact h.exact before c l rest (List.append_inj' hsplit rfl).1

/-- Where a tour stands between two visits. -/
structure Poised (g : Group V) (profile : V → V → DistanceProfile C) (visited : List ItemId)
    (w : Walk σ (PlainList V)) : Prop where
  pending : ∀ id, id ∈ w.pending ↔ (g.index.primary id).isSome = true ∧ id ∉ visited
  unused : ∀ id ∈ w.pending, w.lists.slots[id]? ≠ some Slot.emptied
  lists : ∀ id ∈ w.pending, w.lists.entriesOf id = g.earlier profile visited id
  told : Told g profile (w.lists.journal.reverse.filterMap Event.handed)
  order : (w.lists.journal.reverse.filterMap Event.handed).map Prod.fst = visited

theorem earlier_concat {id : ItemId} : g.earlier profile (visited ++ [center]) id =
    g.earlier profile visited id ++
      if g.sharesCell center id && g.inRange profile center id then (g.entry center).toList
      else [] :=
  filterMap_filter_concat ..

theorem mem_neighbors_iff_sharesCell (hsound : g.index.Sound) {id : ItemId} :
    id ∈ g.neighbors center ↔ id ≠ center ∧ g.sharesCell center id = true := by
  rw [mem_neighbors, sharesCell, List.any_eq_true]
  refine and_congr_right fun _ => exists_congr fun key => and_congr_right fun _ => ?_
  rw [hsound.mirrored, List.contains_iff_mem]

theorem value_of_primary {u : V} (h : g.index.primary center = some u) :
    g.value center = some u := by
  rw [value, h, Option.some_or]

/-- All neighbours of a center that waits are dealt with. -/
theorem Poised.scan (hsound : g.index.Sound) {w : Walk σ (PlainList V)}
    (h : Poised g profile visited w) (hmem : center ∈ w.pending) {u : V}
    (hu : g.index.primary center = some u) :
    ∃ lists list s,
      w.lists.init (plainly profile tick complete).lists center u = (lists, some list) ∧
      g.scan (plainly profile tick complete) center u (g.neighbors center)
        ⟨⟨lists, w.pending.erase center⟩, 0, none⟩ = (s, none) ∧
      Amid g profile visited center (w.lists.journal.reverse.filterMap Event.handed)
        (g.neighbors center) s := by
  obtain ⟨lists, list, hinit, hfind, hsame, hothers⟩ :
    ∃ index' list, w.lists.init (PlainList.beside σ C) center u = (index', some list) ∧
      index'.find center = some list ∧
      (∀ id', index'.entriesOf id' = w.lists.entriesOf id') ∧ _ :=
    NeighborIndex.exists_init u (h.unused center hmem)
  have hwaits (id : ItemId) : id ∈ w.pending.erase center ↔ id ∈ w.pending ∧ id ≠ center := by
    rw [ExtTreeSet.mem_erase, Ne, Std.LawfulEqCmp.compare_eq_iff_eq, and_comm, eq_comm]
  have hstart : Amid g profile visited center
      (w.lists.journal.reverse.filterMap Event.handed) []
      (⟨⟨lists, w.pending.erase center⟩, 0, none⟩ : Scan σ (PlainList V)) := by
    refine ⟨fun id => ?_, ?_, fun id hid => ?_, ?_, fun id hid => ?_, ?_⟩
    · rw [hwaits, h.pending, and_assoc]
    · rw [hfind]
      exact Option.some_ne_none list
    · obtain ⟨hid, hne⟩ := (hwaits id).mp hid
      rw [hothers id hne]
      exact h.unused id hid
    · rw [hsame, h.lists center hmem]
      exact (List.append_nil _).symm
    · rw [hsame, h.lists id ((hwaits id).mp hid).1]
      simp
    · rw [← filterMap_handed_dealings, ← filterMap_handed_dealings w.lists.journal.reverse,
        ← NeighborIndex.dealings_init (PlainList.beside σ C) w.lists center u, hinit]
  cases hscan : g.scan (plainly profile tick complete) center u (g.neighbors center)
      ⟨⟨lists, w.pending.erase center⟩, 0, none⟩ with
  | mk s failure =>
    have hok : (g.scan (plainly profile tick complete) center u (g.neighbors center)
        ⟨⟨lists, w.pending.erase center⟩, 0, none⟩).2 = none :=
      scan_ok (fun a b _ => ⟨profile a b, rfl⟩) ..
    rw [hscan] at hok
    cases hok
    refine ⟨lists, list, s, hinit, hscan, ?_⟩
    apply g.scan_invariant _ (g.neighbors center) (I := fun seen s => Amid g profile visited center
      (w.lists.journal.reverse.filterMap Event.handed) seen s) ?_ hstart hscan
    intro seen n rest s s' hsplit hs hstep
    obtain ⟨hnew, hne⟩ := g.neighbors_split hsplit
    exact hs.consider hsound (value_of_primary hu) hnew hne hstep

/-- A visit hands its center over with the list that is expected. -/
theorem Poised.visit (hsound : g.index.Sound) {w after : Walk σ (PlainList V)}
    {result : Except TraversalCause (Option ItemId)} (h : Poised g profile visited w)
    (hmem : center ∈ w.pending)
    (hvisit : g.visit (plainly profile tick complete) w center = (after, result)) :
    Told g profile (after.lists.journal.reverse.filterMap Event.handed) ∧
    ∀ farthest, result = .ok farthest → Poised g profile (visited ++ [center]) after := by
  obtain ⟨hprimary, hnew⟩ := (h.pending center).mp hmem
  obtain ⟨u, hu⟩ := Option.isSome_iff_exists.mp hprimary
  obtain ⟨lists, list, s, hinit, hscan, hs⟩ : ∃ lists list s,
      w.lists.init (plainly profile tick complete).lists center u = (lists, some list) ∧ _ ∧ _ :=
    h.scan hsound hmem hu
  obtain ⟨kept, hkept⟩ := Option.ne_none_iff_exists'.mp hs.live
  have hlist : kept.entries = g.expected profile visited center := by
    rw [← NeighborIndex.entriesOf_of_find hkept, hs.own]
    rfl
  rw [g.visit_of_scan _ hu hinit hscan] at hvisit
  have hjournal : (finish (plainly profile tick complete) center u s.walk).1.lists.journal =
      .completed center kept :: s.walk.lists.journal := journal_finish _ hkept
  have htold : (.completed center kept :: s.walk.lists.journal).reverse.filterMap Event.handed =
      w.lists.journal.reverse.filterMap Event.handed ++ [(center, kept)] := by
    rw [List.reverse_cons, List.filterMap_append, hs.handed]
    rfl
  have hnext : Told g profile
      (w.lists.journal.reverse.filterMap Event.handed ++ [(center, kept)]) := by
    apply h.told.concat hprimary
    · rw [h.order]
      exact hnew
    · rw [h.order]
      exact hlist
  cases hfinish : finish (plainly profile tick complete) center u s.walk with
  | mk final failure =>
    rw [hfinish] at hvisit hjournal
    cases failure with
    | some e =>
      cases hvisit
      refine ⟨?_, fun farthest hno => by cases hno⟩
      rw [hjournal, htold]
      exact hnext
    | none =>
      cases hvisit
      have hall : Told g profile (after.lists.journal.reverse.filterMap Event.handed) := by
        rw [hjournal, htold]
        exact hnext
      obtain ⟨shared, hafter⟩ := finish_eq _ hkept hfinish
      have hpending : after.pending = s.walk.pending := by rw [hafter]
      refine ⟨hall, fun farthest _ => ⟨fun id => ?_, fun id hid => ?_, fun id hid => ?_, hall, ?_⟩⟩
      · rw [hpending, hs.pending, List.mem_append, List.mem_singleton, not_or]
      · rw [hpending] at hid
        rw [hafter, NeighborIndex.slots_empty, if_neg ((hs.pending id).mp hid).2.2]
        exact hs.unused id hid
      · rw [hpending] at hid
        have hne : id ≠ center := ((hs.pending id).mp hid).2.2
        have hsame : after.lists.entriesOf id = s.walk.lists.entriesOf id := by
          apply NeighborIndex.entriesOf_congr
          rw [hafter, NeighborIndex.slots_empty, if_neg hne]
          rfl
        rw [hsame, hs.others id hid, earlier_concat]
        simp only [mem_neighbors_iff_sharesCell hsound, hne, ne_eq, not_false_eq_true, true_and,
          Bool.and_eq_true]
      · rw [hjournal, htold, List.map_append, h.order]
        rfl

/-- In a tour everything is handed over with the list that is expected, and unless it fails, every
primary is handed over. -/
theorem Tour.told (hsound : g.index.Sound) {w after : Walk σ (PlainList V)}
    {next : Option ItemId} {stops : List (Walk σ (PlainList V) × ItemId)}
    {failure : Option (ItemId × TraversalCause)}
    (h : Tour g (plainly profile tick complete) w next stops after failure)
    (hw : Poised g profile visited w) (hnext : ∀ id, next = some id → id ∈ w.pending) :
    Told g profile (after.lists.journal.reverse.filterMap Event.handed) ∧
    (failure = none → ∀ p, (g.index.primary p).isSome = true →
      p ∈ (after.lists.journal.reverse.filterMap Event.handed).map Prod.fst) := by
  induction h generalizing visited with
  | arrived hnothing =>
    refine ⟨hw.told, fun _ p hp => ?_⟩
    rw [Option.or_eq_none_iff] at hnothing
    rw [hw.order]
    by_contra hno
    exact smallest_eq_none hnothing.2 p ((hw.pending p).mpr ⟨hp, hno⟩)
  | stopped hchosen hvisited =>
    exact ⟨(hw.visit hsound (mem_of_next hnext hchosen) hvisited).1, fun hno => by cases hno⟩
  | @onward w between after next farthest center stops failure hchosen hvisited _ ih =>
    have hbetween := (hw.visit hsound (mem_of_next hnext hchosen) hvisited).2 farthest rfl
    exact ih hbetween (g.farthest_waits _ hvisited)

theorem value_of_inRange {a b : ItemId} (h : g.inRange profile a b = true) :
    (g.value a).isSome = true ∧ (g.value b).isSome = true := by
  unfold inRange at h
  cases ha : g.value a with
  | none =>
    rw [ha] at h
    cases h
  | some u =>
    cases hb : g.value b with
    | none =>
      rw [ha, hb] at h
      cases h
    | some v => exact ⟨rfl, rfl⟩

theorem value_of_mem_entries {l : List ItemId} {id : ItemId} {v : V}
    (h : (id, v) ∈ l.filterMap g.entry) : g.value id = some v := by
  obtain ⟨a, -, he⟩ := List.mem_filterMap.mp h
  obtain ⟨w, hw, he⟩ := Option.map_eq_some_iff.mp he
  cases he
  exact hw

theorem map_fst_filterMap_entry {l : List ItemId} (h : ∀ id ∈ l, (g.value id).isSome = true) :
    (l.filterMap g.entry).map Prod.fst = l := by
  induction l with
  | nil => rfl
  | cons a l ih =>
    obtain ⟨v, hv⟩ := Option.isSome_iff_exists.mp (h a List.mem_cons_self)
    have hentry : g.entry a = some (a, v) := by
      rw [entry, hv]
      rfl
    rw [List.filterMap_cons_some hentry, List.map_cons,
      ih fun id hid => h id (List.mem_cons_of_mem _ hid)]

/-- The ids that are expected in a list. -/
theorem map_fst_expected : (g.expected profile visited center).map Prod.fst =
    (visited.filter fun b => g.sharesCell b center && g.inRange profile b center) ++
      (g.neighbors center).filter (g.finds profile visited center) := by
  unfold expected earlier found
  rw [List.map_append, map_fst_filterMap_entry, map_fst_filterMap_entry]
  · intro id hid
    have hfinds := (List.mem_filter.mp hid).2
    rw [finds, Bool.and_eq_true] at hfinds
    exact (value_of_inRange hfinds.2).2
  · intro id hid
    have hclose := (List.mem_filter.mp hid).2
    rw [Bool.and_eq_true] at hclose
    exact (value_of_inRange hclose.2).1

/-- A primary that was visited is not found again. -/
theorem finds_of_visited (hsound : g.index.Sound) {id : ItemId}
    (hprimary : (g.index.primary id).isSome = true) (hid : id ∈ visited) :
    g.finds profile visited center id = false := by
  have hother : g.index.other id = none := by
    apply (hsound.exclusive id).resolve_left
    show ¬g.index.primary id = none
    rw [← Option.not_isSome_iff_eq_none]
    exact fun hno => hno hprimary
  simp [finds, hother, hid]

theorem nodup_expected (hsound : g.index.Sound) (hnodup : visited.Nodup)
    (hprimary : ∀ id ∈ visited, (g.index.primary id).isSome = true) :
    ((g.expected profile visited center).map Prod.fst).Nodup := by
  rw [map_fst_expected]
  refine List.nodup_append.mpr
    ⟨hnodup.sublist List.filter_sublist, (g.neighbors_nodup center).sublist List.filter_sublist, ?_⟩
  intro a ha b hb he
  have hvisited : a ∈ visited := (List.mem_filter.mp ha).1
  have hfinds := (List.mem_filter.mp hb).2
  rw [← he, finds_of_visited hsound (hprimary a hvisited) hvisited] at hfinds
  cases hfinds

/-- Of two centers the later one has the earlier one in its list exactly if the earlier one found
it. -/
theorem Told.symm (hsound : g.index.Sound) {told before between later : List (ItemId × PlainList V)}
    {a b : ItemId} {la lb : PlainList V} (h : Told g profile told)
    (hsplit : told = before ++ (a, la) :: (between ++ (b, lb) :: later)) :
    b ∈ la.entries.map Prod.fst ↔ a ∈ lb.entries.map Prod.fst := by
  have hla := h.exact before a la _ hsplit
  have hlb := h.exact (before ++ (a, la) :: between) b lb later (by rw [hsplit]; simp)
  have hprimary : (g.index.primary a).isSome = true := by
    apply h.primary
    rw [hsplit]
    simp
  obtain ⟨hnot, hne⟩ : b ∉ before.map Prod.fst ∧ b ≠ a := by
    have hids := h.nodup
    rw [hsplit, List.map_append, List.map_cons, List.map_append, List.map_cons] at hids
    obtain ⟨-, hrest, hapart⟩ := List.nodup_append.mp hids
    have hb : b ∈ between.map Prod.fst ++ b :: later.map Prod.fst :=
      List.mem_append_right _ List.mem_cons_self
    refine ⟨fun hin => hapart b hin b (List.mem_cons_of_mem _ hb) rfl, fun he => ?_⟩
    have hagain := (List.nodup_cons.mp hrest).1
    rw [he] at hb hagain
    exact hagain hb
  have hfirst : b ∈ la.entries.map Prod.fst ↔
      g.sharesCell a b = true ∧ g.inRange profile a b = true := by
    have hfinds : g.finds profile (before.map Prod.fst) a b = g.inRange profile a b := by
      simp [finds, hnot]
    rw [hla, map_fst_expected, List.mem_append, List.mem_filter, List.mem_filter, hfinds,
      mem_neighbors_iff_sharesCell hsound]
    constructor
    · intro hin
      rcases hin with ⟨hbefore, -⟩ | ⟨⟨-, hcell⟩, hrange⟩
      · exact absurd hbefore hnot
      · exact ⟨hcell, hrange⟩
    · intro hin
      exact Or.inr ⟨⟨hne, hin.1⟩, hin.2⟩
  have hsecond : a ∈ lb.entries.map Prod.fst ↔
      g.sharesCell a b = true ∧ g.inRange profile a b = true := by
    have hvisited : a ∈ (before ++ (a, la) :: between).map Prod.fst := by simp
    rw [hlb, map_fst_expected, List.mem_append, List.mem_filter, List.mem_filter,
      finds_of_visited hsound hprimary hvisited, Bool.and_eq_true]
    constructor
    · intro hin
      rcases hin with ⟨-, hin⟩ | ⟨-, hno⟩
      · exact hin
      · cases hno
    · intro hin
      exact Or.inl ⟨hvisited, hin⟩
  rw [hfirst, hsecond]

theorem Told.mem_symm (hsound : g.index.Sound) {told : List (ItemId × PlainList V)} {a b : ItemId}
    {la lb : PlainList V} (h : Told g profile told) (ha : (a, la) ∈ told) (hb : (b, lb) ∈ told) :
    b ∈ la.entries.map Prod.fst ↔ a ∈ lb.entries.map Prod.fst := by
  obtain ⟨before, rest, hsplit⟩ := List.append_of_mem ha
  rw [hsplit] at hb
  rcases List.mem_append.mp hb with hb | hb
  · obtain ⟨first, between, hfirst⟩ := List.append_of_mem hb
    have horder : told = first ++ (b, lb) :: (between ++ (a, la) :: rest) := by
      rw [hsplit, hfirst, List.append_assoc, List.cons_append]
    exact (h.symm hsound horder).symm
  · rcases List.mem_cons.mp hb with hb | hb
    · cases hb
      rfl
    · obtain ⟨between, later, hlast⟩ := List.append_of_mem hb
      rw [hlast] at hsplit
      exact h.symm hsound hsplit

theorem poised_departure {shared : σ} : Poised g profile []
    (g.departure shared : Walk σ (PlainList V)) := by
  refine ⟨fun id => ?_, fun id _ => ?_, fun id _ => rfl, ⟨by simp [departure, NeighborIndex.start],
    List.nodup_nil, ?_⟩, rfl⟩
  · rw [mem_departure]
    simp
  · show (∅ : ExtTreeMap ItemId (Slot (PlainList V)))[id]? ≠ _
    rw [ExtTreeMap.getElem?_empty]
    exact nofun
  · intro before c list later hsplit
    exact absurd hsplit (by simp [departure, NeighborIndex.start])

section History

open PartitionIndex (Change)

variable {P : Type} (maxDistance : Float) (parent : Descriptor) (edits : List (Edit P V))

/-- Two ids share a cell if each was put into it since it was last forgotten. -/
theorem sharesCell_edited (a b : ItemId) : (edited maxDistance parent edits).sharesCell a b = true ↔
    ∃ key, Since (Change.Places a key) (· ≠ .remove a) (edits.filterMap Edit.change) ∧
      Since (Change.Places b key) (· ≠ .remove b) (edits.filterMap Edit.change) := by
  rw [sharesCell, index_edited, List.any_eq_true]
  refine exists_congr fun key => and_congr (PartitionIndex.mem_partitionsOf_after _ a key) ?_
  rw [List.contains_iff_mem]
  exact PartitionIndex.mem_partitionsOf_after _ b key

/-- The value of an id is the one that was stored last. -/
theorem value_edited (id : ItemId) (v : V) : (edited maxDistance parent edits).value id = some v ↔
    ∃ primary, Since (Change.Stores id primary v) (fun c => c.subject ≠ id)
      (edits.filterMap Edit.change) := by
  have hsound := sound_edited maxDistance parent edits
  have hvalue : (edited maxDistance parent edits).value id = some v ↔
      ∃ primary, (edited maxDistance parent edits).index.stored primary id = some v := by
    rw [value, Option.or_eq_some_iff, or_comm, Bool.exists_bool]
    refine or_congr_left ⟨And.right, fun hother => ⟨?_, hother⟩⟩
    refine (hsound.exclusive id).resolve_right fun hnone => ?_
    rw [hnone] at hother
    cases hother
  rw [hvalue, index_edited]
  exact exists_congr fun primary => PartitionIndex.stored_after _ id primary v

end History

/-- Plain lists are exact and mutual. The list of a primary holds the primaries visited before it
that share a cell with it and found it in range, in the order of their visits, and then all others
and primaries not visited yet that share a cell with it and that it finds in range, cell by cell;
each id once, with its value. Ids share the cells that they were put into since they were last
forgotten, and their values are those that were stored last. -/
theorem plain_lists_exact {P : Type} (maxDistance : Float) (parent : Descriptor)
    (edits : List (Edit P V)) (profile : V → V → DistanceProfile C) (tick : V → V → σ → σ)
    (complete : ItemId → V → PlainList V → σ → Except String Unit × σ) (shared : σ) :
    let g : Group V := edited maxDistance parent edits
    let outcome := g.traverse (plainly profile tick complete) shared
    (∀ before c list later, outcome.notified = before ++ (c, list) :: later →
      list.entries = g.earlier profile (before.map Prod.fst) c ++
        g.found profile (before.map Prod.fst) c (g.neighbors c) ∧
      (list.entries.map Prod.fst).Nodup ∧ ∀ id v, (id, v) ∈ list.entries → g.value id = some v) ∧
    (∀ c, (∀ id, id ∈ g.neighbors c ↔ id ≠ c ∧ g.sharesCell c id = true) ∧
      (g.neighbors c).Pairwise (Precedes g.index.members (g.index.partitionsOf c))) ∧
    (∀ a la b lb, (a, la) ∈ outcome.notified → (b, lb) ∈ outcome.notified →
      (b ∈ la.entries.map Prod.fst ↔ a ∈ lb.entries.map Prod.fst)) ∧
    (outcome.notified.map Prod.fst).Nodup ∧
    (∀ p ∈ outcome.notified.map Prod.fst, (g.index.primary p).isSome = true) ∧
    (outcome.failure = none → ∀ p, (g.index.primary p).isSome = true →
      p ∈ outcome.notified.map Prod.fst) ∧
    (∀ a b, g.sharesCell a b = true ↔ ∃ key,
      Since (PartitionIndex.Change.Places a key) (· ≠ .remove a) (edits.filterMap Edit.change) ∧
      Since (PartitionIndex.Change.Places b key) (· ≠ .remove b) (edits.filterMap Edit.change)) ∧
    ∀ id v, g.value id = some v ↔ ∃ primary, Since (PartitionIndex.Change.Stores id primary v)
      (fun c => c.subject ≠ id) (edits.filterMap Edit.change) := by
  intro g outcome
  have hsound : g.index.Sound := sound_edited maxDistance parent edits
  obtain ⟨stops, after, failure, htour, houtcome⟩ :=
    exists_tour_of_traverse (g := g) (c := plainly profile tick complete) shared
  have hnotified : outcome.notified =
      after.lists.journal.reverse.filterMap Event.handed := by
    show (g.traverse (plainly profile tick complete) shared).notified = _
    rw [houtcome]
    rfl
  obtain ⟨htold, hall⟩ := htour.told hsound poised_departure (g.startingPoint_waits shared)
  rw [hnotified]
  refine ⟨fun before c list later hsplit => ?_, fun c => ⟨fun id => ?_, ?_⟩,
    fun a la b lb ha hb => htold.mem_symm hsound ha hb, htold.nodup, htold.primary,
    fun hok p hp => ?_, sharesCell_edited maxDistance parent edits,
    value_edited maxDistance parent edits⟩
  · have hlist : list.entries = g.expected profile (before.map Prod.fst) c :=
      htold.exact before c list later hsplit
    have hnodup : (before.map Prod.fst).Nodup := by
      have hids := htold.nodup
      rw [hsplit, List.map_append] at hids
      exact (List.nodup_append.mp hids).1
    have hprimary : ∀ id ∈ before.map Prod.fst, (g.index.primary id).isSome = true := by
      intro id hid
      apply htold.primary
      rw [hsplit, List.map_append]
      exact List.mem_append_left _ hid
    refine ⟨hlist, ?_, fun id v hin => ?_⟩
    · rw [hlist]
      exact nodup_expected hsound hnodup hprimary
    · rw [hlist] at hin
      rcases List.mem_append.mp hin with hin | hin
      · exact value_of_mem_entries hin
      · exact value_of_mem_entries hin
  · exact mem_neighbors_iff_sharesCell hsound
  · exact precedes_flatMap _ ExtTreeSet.ordered_toList (fun _ => ExtTreeSet.ordered_toList) _
  · have hnone : outcome.failure = _ := congrArg Outcome.failure houtcome
    rw [hok] at hnone
    exact hall (Option.map_eq_none_iff.mp hnone.symm) p hp

end Group

end DensityClustering
