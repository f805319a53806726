import Mathlib.Data.List.Nodup
import Mathlib.Data.List.Induction
import DensityClustering.Proofs.Neighbor.Tour

/-!
Whatever is asked of the lists of a traversal, in whatever order: an id gets its list when it first
comes up, and never a second one. Once its list was emptied it has none, and no later request brings
one back.
-/

namespace DensityClustering

variable {σ V C L : Type}

/-- What can be asked of the lists of a traversal. -/
inductive Request (σ V C L : Type) where
  | init (id : ItemId) (value : V)
  | add (profile : DistanceProfile C) (center : ItemId) (centerValue : V) (neighbor : ItemId)
    (neighborValue : V) (reciprocal : Bool)
  | infer (center neighbor : ItemId) (value : V)
  | empty (id : ItemId)
  /-- Looks up a list and, if there is one, changes it in place. -/
  | change (id : ItemId) (f : L → σ → L × σ)

/-- The request leaves what a kind tallies in the shared state to the kind. -/
def Request.Spares (tally : σ → List ItemId) : Request σ V C L → Prop
  | change _ f => ∀ list shared, tally (f list shared).2 = tally shared
  | _ => True

/-- The center of a list that was built. -/
def Event.built? : Event L → Option ItemId
  | built center => some center
  | _ => none

namespace NeighborIndex

/-- The ids for which a list was asked from the kind, last one first. -/
def builds (index : NeighborIndex σ L) : List ItemId := index.journal.filterMap Event.built?

variable (kind : ListKind σ V C L)

def change (index : NeighborIndex σ L) (id : ItemId) (f : L → σ → L × σ) : NeighborIndex σ L :=
  match index.find id with
  | some list =>
    let (list, shared) := f list index.shared
    { index with shared := shared }.put id list
  | none => index

/-- The lists after a request. -/
def perform (index : NeighborIndex σ L) : Request σ V C L → NeighborIndex σ L
  | .init id value => (index.init kind id value).1
  | .add profile center centerValue neighbor neighborValue reciprocal =>
    (index.add kind profile center centerValue neighbor neighborValue reciprocal).1
  | .infer _ _ _ => index
  | .empty id => index.empty id
  | .change id f => index.change id f

/-- The lists after a sequence of requests on no lists. -/
def served (shared : σ) (requests : List (Request σ V C L)) : NeighborIndex σ L :=
  requests.foldl (perform kind) (.start shared)

theorem served_concat (shared : σ) (requests : List (Request σ V C L)) (r : Request σ V C L) :
    served kind shared (requests ++ [r]) = (served kind shared requests).perform kind r :=
  List.foldl_append

section Offer

variable {index : NeighborIndex σ L} {center neighbor : ItemId} {v u : V}
  {profile : DistanceProfile C}

theorem offer_of_emptied (h : index.slots[center]? = some .emptied) :
    index.offer kind profile center v neighbor u = (index, false) := by
  unfold offer
  rw [init_of_emptied kind v h]

theorem offer_of_init {asked : NeighborIndex σ L} {list : L}
    (h : index.init kind center v = (asked, some list)) :
    index.offer kind profile center v neighbor u =
      ({ asked with shared := (kind.add list profile neighbor u asked.shared).2.2 }.put center
        (kind.add list profile neighbor u asked.shared).2.1,
        (kind.add list profile neighbor u asked.shared).1) := by
  unfold offer
  rw [h]

end Offer

section Emptied

variable (index : NeighborIndex σ L)

theorem slots_change (id : ItemId) (f : L → σ → L × σ) (id' : ItemId) :
    (index.change id f).slots[id']? = index.slots[id']? ∨
      ∃ list list', index.slots[id']? = some (.live list) ∧
        (index.change id f).slots[id']? = some (.live list') := by
  unfold change
  split
  · next list hfind =>
    have hslot : (put { index with shared := (f list index.shared).2 } id
        (f list index.shared).1).slots[id']? =
          if id' = id then some (.live (f list index.shared).1) else index.slots[id']? :=
      slots_put id'
    by_cases hid : id' = id
    · rw [if_pos hid] at hslot
      exact Or.inr ⟨list, _, hid ▸ find_eq_some.mp hfind, hslot⟩
    · rw [if_neg hid] at hslot
      exact Or.inl hslot
  · exact Or.inl rfl

/-- No request empties a list but the one that says so, and none brings one back. -/
theorem slots_perform_eq_emptied (r : Request σ V C L) (id : ItemId) :
    (index.perform kind r).slots[id]? = some .emptied ↔
      index.slots[id]? = some .emptied ∨ r = .empty id := by
  cases r with
  | init id' value =>
    rw [or_iff_left nofun]
    rcases init_cases kind index id' value with ⟨-, hinit⟩ |
      ⟨after, list, hopen, hinit, hlive, hothers⟩
    · rw [perform, hinit]
    · rw [perform, hinit]
      by_cases hid : id = id'
      · subst hid
        rw [hlive]
        exact iff_of_false nofun hopen
      · rw [hothers id hid]
  | add profile center centerValue neighbor neighborValue reciprocal =>
    rw [or_iff_left nofun]
    exact add_of_offer kind (I := fun after => after.slots[id]? = some .emptied ↔
        index.slots[id]? = some .emptied)
      (fun _ _ _ _ _ h => (slots_offer_eq_emptied kind).trans h) reciprocal Iff.rfl
  | infer center neighbor value => exact (or_iff_left nofun).symm
  | empty id' =>
    rw [perform, slots_empty]
    by_cases hid : id = id'
    · rw [if_pos hid, hid]
      exact iff_of_true rfl (Or.inr rfl)
    · rw [if_neg hid, or_iff_left]
      rintro ⟨⟩
      exact hid rfl
  | change id' f =>
    rw [or_iff_left nofun, perform]
    rcases index.slots_change id' f id with h | ⟨list, list', hbefore, hafter⟩
    · rw [h]
    · rw [hbefore, hafter]
      exact iff_of_false nofun nofun

/-- The emptied lists are those that a request emptied. -/
theorem slots_served_eq_emptied (shared : σ) (requests : List (Request σ V C L)) (id : ItemId) :
    (served kind shared requests).slots[id]? = some .emptied ↔ .empty id ∈ requests := by
  induction requests using List.reverseRecOn with
  | nil =>
    refine iff_of_false ?_ List.not_mem_nil
    show (∅ : Std.ExtTreeMap ItemId (Slot L))[id]? ≠ _
    rw [Std.ExtTreeMap.getElem?_empty]
    exact nofun
  | append_singleton requests r ih =>
    rw [served_concat, slots_perform_eq_emptied, ih, List.mem_append, List.mem_singleton,
      eq_comm (a := r)]

end Emptied

/-- What requests do to the ids that have come up: these stay known, and lists are built for new
ones only, each of them one. -/
structure Extends (index later : NeighborIndex σ L) : Prop where
  known : ∀ id : ItemId, index.slots[id]? ≠ none → later.slots[id]? ≠ none
  builds : ∃ fresh, later.builds = fresh ++ index.builds ∧ fresh.Nodup ∧
    ∀ id ∈ fresh, index.slots[id]? = none ∧ later.slots[id]? ≠ none

namespace Extends

variable {index between later : NeighborIndex σ L}

theorem of_builds_eq (hknown : ∀ id : ItemId, index.slots[id]? ≠ none → later.slots[id]? ≠ none)
    (hbuilds : later.builds = index.builds) : Extends index later :=
  ⟨hknown, [], hbuilds, .nil, nofun⟩

theorem refl (index : NeighborIndex σ L) : Extends index index :=
  .of_builds_eq (fun _ h => h) rfl

theorem trans (h : Extends index between) (h' : Extends between later) : Extends index later := by
  obtain ⟨fresh, hbuilds, hnodup, hfresh⟩ := h.builds
  obtain ⟨fresh', hbuilds', hnodup', hfresh'⟩ := h'.builds
  refine ⟨fun id hid => h'.known id (h.known id hid), fresh' ++ fresh, ?_, ?_, fun id hid => ?_⟩
  · rw [hbuilds', hbuilds, List.append_assoc]
  · refine List.nodup_append.mpr ⟨hnodup', hnodup, ?_⟩
    -- What is new in the second part was not known after the first one.
    rintro id hid _ hid' rfl
    exact (hfresh id hid').2 (hfresh' id hid).1
  · rcases List.mem_append.mp hid with hid | hid
    · refine ⟨?_, (hfresh' id hid).2⟩
      exact Classical.byContradiction fun hknown => h.known id hknown (hfresh' id hid).1
    · exact ⟨(hfresh id hid).1, h'.known id (hfresh id hid).2⟩

theorem put (index : NeighborIndex σ L) (shared : σ) (id : ItemId) (list : L) :
    Extends index ({ index with shared := shared }.put id list) := by
  refine .of_builds_eq (fun id' h => ?_) rfl
  rw [slots_put]
  split
  · exact nofun
  · exact h

theorem init (index : NeighborIndex σ L) (id : ItemId) (value : V) :
    Extends index (index.init kind id value).1 := by
  cases hslot : index.slots[id]? with
  | none =>
    rw [init_of_none kind index value hslot]
    refine ⟨?_, [id], rfl, List.nodup_singleton id, fun id' hid => ?_⟩
    · exact (put index (kind.build id value index.shared).2 id _).known
    · rw [List.mem_singleton.mp hid]
      refine ⟨hslot, ?_⟩
      rw [slots_put, if_pos rfl]
      exact nofun
  | some slot =>
    cases slot with
    | live list =>
      rw [init_of_live kind value hslot]
      exact refl index
    | emptied =>
      rw [init_of_emptied kind value hslot]
      exact refl index

theorem offer (index : NeighborIndex σ L) (profile : DistanceProfile C) (center : ItemId)
    (centerValue : V) (neighbor : ItemId) (neighborValue : V) :
    Extends index (index.offer kind profile center centerValue neighbor neighborValue).1 := by
  have hinit : Extends index (index.init kind center centerValue).1 := .init kind index center _
  rcases init_cases kind index center centerValue with ⟨hgone, -⟩ | ⟨asked, list, -, hasked, -, -⟩
  · rw [offer_of_emptied kind hgone]
    exact refl index
  · rw [hasked] at hinit
    rw [offer_of_init kind hasked]
    exact hinit.trans (put asked _ center _)

theorem perform (index : NeighborIndex σ L) (r : Request σ V C L) :
    Extends index (index.perform kind r) := by
  cases r with
  | init id value => exact .init kind index id value
  | add profile center centerValue neighbor neighborValue reciprocal =>
    exact add_of_offer kind (I := Extends index) (fun between _ _ _ _ h =>
      h.trans (.offer kind between profile _ _ _ _)) reciprocal (refl index)
  | infer center neighbor value => exact refl index
  | empty id =>
    refine .of_builds_eq (fun id' h => ?_) rfl
    rw [NeighborIndex.perform, slots_empty]
    split
    · exact nofun
    · exact h
  | change id f =>
    rw [NeighborIndex.perform]
    unfold NeighborIndex.change
    split
    · next list _ => exact put index (f list index.shared).2 id (f list index.shared).1
    · exact refl index

theorem foldl (index : NeighborIndex σ L) (requests : List (Request σ V C L)) :
    Extends index (requests.foldl (NeighborIndex.perform kind) index) := by
  induction requests generalizing index with
  | nil => exact refl index
  | cons r requests ih => exact (perform kind index r).trans (ih _)

end Extends

/-- No id was ever given two lists. -/
theorem nodup_builds_served (shared : σ) (requests : List (Request σ V C L)) :
    (served kind shared requests).builds.Nodup := by
  obtain ⟨fresh, hbuilds, hnodup, -⟩ := (Extends.foldl kind (.start shared) requests).builds
  rw [served, hbuilds]
  show (fresh ++ []).Nodup
  rwa [List.append_nil]

/-- A list that came up is not built again. -/
theorem count_builds_served {shared : σ} {requests : List (Request σ V C L)} {id : ItemId}
    (h : (served kind shared requests).slots[id]? ≠ none) (rest : List (Request σ V C L)) :
    (served kind shared (requests ++ rest)).builds.count id =
      (served kind shared requests).builds.count id := by
  obtain ⟨fresh, hbuilds, -, hfresh⟩ :=
    (Extends.foldl kind (served kind shared requests) rest).builds
  have hnew : id ∉ fresh := fun hid => h (hfresh id hid).1
  rw [served, List.foldl_append, ← served, hbuilds, List.count_append,
    List.count_eq_zero_of_not_mem hnew, Nat.zero_add]

section Tally

/-- The kind keeps a tally of the ids that it was asked to build lists for, last one first. -/
structure Tallies (tally : σ → List ItemId) : Prop where
  build : ∀ id value shared, tally (kind.build id value shared).2 = id :: tally shared
  add : ∀ list profile id value shared,
    tally (kind.add list profile id value shared).2.2 = tally shared

variable {kind} {tally : σ → List ItemId} {index : NeighborIndex σ L} {ids : List ItemId}

namespace Tallies

theorem init (h : Tallies kind tally) (id : ItemId) (value : V)
    (hindex : tally index.shared = index.builds ++ ids) :
    tally (index.init kind id value).1.shared = (index.init kind id value).1.builds ++ ids := by
  cases hslot : index.slots[id]? with
  | none =>
    rw [init_of_none kind index value hslot]
    show tally (kind.build id value index.shared).2 = id :: (index.builds ++ ids)
    rw [h.build, hindex]
  | some slot =>
    cases slot with
    | live list => rwa [init_of_live kind value hslot]
    | emptied => rwa [init_of_emptied kind value hslot]

theorem offer (h : Tallies kind tally) (profile : DistanceProfile C) (center : ItemId) (v : V)
    (neighbor : ItemId) (u : V) (hindex : tally index.shared = index.builds ++ ids) :
    tally (index.offer kind profile center v neighbor u).1.shared =
      (index.offer kind profile center v neighbor u).1.builds ++ ids := by
  have hinit := h.init center v hindex
  rcases init_cases kind index center v with ⟨hgone, -⟩ | ⟨asked, list, -, hasked, -, -⟩
  · rwa [offer_of_emptied kind hgone]
  · rw [hasked] at hinit
    rw [offer_of_init kind hasked]
    show tally (kind.add list profile neighbor u asked.shared).2.2 = asked.builds ++ ids
    rw [h.add, hinit]

theorem perform (h : Tallies kind tally) {r : Request σ V C L} (hr : r.Spares tally)
    (hindex : tally index.shared = index.builds ++ ids) :
    tally (index.perform kind r).shared = (index.perform kind r).builds ++ ids := by
  cases r with
  | init id value => exact h.init id value hindex
  | add profile center centerValue neighbor neighborValue reciprocal =>
    exact add_of_offer kind (I := fun after => tally after.shared = after.builds ++ ids)
      (fun _ _ _ _ _ hafter => h.offer profile _ _ _ _ hafter) reciprocal hindex
  | infer center neighbor value => exact hindex
  | empty id => exact hindex
  | change id f =>
    rw [NeighborIndex.perform]
    unfold NeighborIndex.change
    split
    · next list _ => exact (hr list index.shared).trans hindex
    · exact hindex

/-- The tally agrees with the journal. -/
theorem served (h : Tallies kind tally) (shared : σ) {requests : List (Request σ V C L)}
    (hspare : ∀ r ∈ requests, r.Spares tally) :
    tally (served kind shared requests).shared =
      (NeighborIndex.served kind shared requests).builds ++ tally shared := by
  induction requests using List.reverseRecOn with
  | nil => rfl
  | append_singleton requests r ih =>
    obtain ⟨hbefore, hlast⟩ := List.forall_mem_append.mp hspare
    rw [served_concat]
    exact h.perform (hlast r (List.mem_singleton_self r)) (ih hbefore)

end Tallies

end Tally

/-- Of the list of an id nothing is left, whatever is asked of it. -/
structure Gone (index : NeighborIndex σ L) (id : ItemId) : Prop where
  init : ∀ value, (index.init kind id value).2 = none
  find : index.find id = none
  infer : ∀ neighbor value, index.infer kind id neighbor value = .skip
  add : ∀ profile value neighbor neighborValue reciprocal,
    (index.add kind profile id value neighbor neighborValue reciprocal).2 = false

/-- What an addition does: the answer is that of the center's list, the neighbour's list is reached
by a reciprocal addition, and all other lists stay as they are. -/
structure Adds (index : NeighborIndex σ L) (profile : DistanceProfile C) (center : ItemId) (v : V)
    (neighbor : ItemId) (u : V) : Prop where
  answer : ∀ reciprocal asked list, index.init kind center v = (asked, some list) →
    (index.add kind profile center v neighbor u reciprocal).2 =
      (kind.add list profile neighbor u asked.shared).1
  reached : ∀ asked list,
    (index.offer kind profile center v neighbor u).1.init kind neighbor u = (asked, some list) →
      (index.add kind profile center v neighbor u true).1.find neighbor =
        some (kind.add list profile center v asked.shared).2.1
  others : ∀ (reciprocal : Bool) (id : ItemId), id ≠ center →
    (reciprocal = true → id ≠ neighbor) →
      (index.add kind profile center v neighbor u reciprocal).1.slots[id]? = index.slots[id]?

section Answers

variable {index : NeighborIndex σ L} {id center neighbor : ItemId} {v u : V}
  {profile : DistanceProfile C}

/-- The answer of an addition is that of the offer to the center. -/
theorem snd_add (reciprocal : Bool) : (index.add kind profile center v neighbor u reciprocal).2 =
    (index.offer kind profile center v neighbor u).2 := by
  cases reciprocal <;> rfl

theorem gone_of_emptied (h : index.slots[id]? = some .emptied) : Gone kind index id := by
  have hfind : index.find id = none := by
    unfold find
    rw [h]
  refine ⟨fun value => ?_, hfind, fun neighbor value => ?_,
    fun profile value neighbor u reciprocal => ?_⟩
  · rw [init_of_emptied kind value h]
  · unfold infer
    rw [hfind]
  · rw [snd_add, offer_of_emptied kind h]

theorem adds (index : NeighborIndex σ L) (profile : DistanceProfile C) (center : ItemId) (v : V)
    (neighbor : ItemId) (u : V) : Adds kind index profile center v neighbor u where
  answer reciprocal asked list h := by rw [snd_add, offer_of_init kind h]
  reached asked list h := by
    rw [add_true, offer_of_init kind h, find_eq_some, slots_put, if_pos rfl]
  others reciprocal id hcenter hneighbor := by
    have hfirst : (index.offer kind profile center v neighbor u).1.slots[id]? = index.slots[id]? :=
      (slots_offer kind index profile center v neighbor u id).resolve_right fun h => hcenter h.1
    cases reciprocal with
    | false => exact hfirst
    | true =>
      rw [add_true, ← hfirst]
      exact (slots_offer kind _ profile neighbor u center v id).resolve_right
        fun h => hneighbor rfl h.1

end Answers

/-- However the lists are used, no id is given two of them. An id whose list was emptied has none,
whatever is asked later, and no other id is left without; and an addition touches the lists of its
two ids only, that of the neighbour also when the center's was emptied. -/
theorem lists_built_once (shared : σ) (requests : List (Request σ V C L)) :
    (served kind shared requests).builds.Nodup ∧
    (∀ tally, Tallies kind tally → (∀ r ∈ requests, r.Spares tally) →
      tally (served kind shared requests).shared =
        (served kind shared requests).builds ++ tally shared) ∧
    (∀ id, .empty id ∈ requests → Gone kind (served kind shared requests) id ∧
      ∀ rest, (served kind shared (requests ++ rest)).builds.count id =
        (served kind shared requests).builds.count id) ∧
    (∀ id value, .empty id ∉ requests →
      ∃ list, ((served kind shared requests).init kind id value).2 = some list) ∧
    ∀ profile center v neighbor u,
      Adds kind (served kind shared requests) profile center v neighbor u ∧
      (.empty center ∈ requests →
        ((served kind shared requests).offer kind profile center v neighbor u).1 =
          served kind shared requests) := by
  refine ⟨nodup_builds_served kind shared requests, fun tally h hspare => h.served shared hspare,
    fun id hid => ?_, fun id value hid => ?_, fun profile center v neighbor u => ?_⟩
  · have hslot := (slots_served_eq_emptied kind shared requests id).mpr hid
    refine ⟨gone_of_emptied kind hslot, fun rest => count_builds_served kind ?_ rest⟩
    rw [hslot]
    exact nofun
  · have hslot := mt (slots_served_eq_emptied kind shared requests id).mp hid
    rcases init_cases kind (served kind shared requests) id value with
      ⟨hgone, -⟩ | ⟨asked, list, -, hasked, -, -⟩
    · exact absurd hgone hslot
    · rw [hasked]
      exact ⟨list, rfl⟩
  · refine ⟨adds kind _ profile center v neighbor u, fun hcenter => ?_⟩
    rw [offer_of_emptied kind ((slots_served_eq_emptied kind shared requests center).mpr hcenter)]

/-- Lists that keep the ids they are offered, and tally in the shared state whom they were built
for. -/
def tallyingKind : ListKind (List ItemId) Unit Unit (List ItemId) where
  build id _ shared := ([], id :: shared)
  add list _ id _ shared := (true, list ++ [id], shared)
  infer _ _ _ _ := .none

/-- Two ids are added to each other's lists, the first list is emptied, and the second one changed;
then they are added to each other again, and the first list is asked for once more. -/
def reunion : List (Request (List ItemId) Unit Unit (List ItemId)) :=
  [.add ⟨1, ()⟩ ⟨[0]⟩ () ⟨[1]⟩ () true, .empty ⟨[0]⟩, .change ⟨[1]⟩ fun _ shared => ([], shared),
    .add ⟨1, ()⟩ ⟨[1]⟩ () ⟨[0]⟩ () true, .init ⟨[0]⟩ ()]

/-- Only the second list is left, and it takes what is added from the side of the first one. -/
theorem reunion_without_the_first :
    (served tallyingKind [] reunion).shared = [⟨[1]⟩, ⟨[0]⟩] ∧
    (served tallyingKind [] reunion).builds = [⟨[1]⟩, ⟨[0]⟩] ∧
    Gone tallyingKind (served tallyingKind [] reunion) ⟨[0]⟩ ∧
    (served tallyingKind [] (reunion ++ [.init ⟨[0]⟩ ()])).builds.count ⟨[0]⟩ = 1 ∧
    (∃ list, ((served tallyingKind [] reunion).init tallyingKind ⟨[1]⟩ ()).2 = some list) ∧
    ((served tallyingKind [] reunion).add tallyingKind ⟨1, ()⟩ ⟨[0]⟩ () ⟨[1]⟩ () true).1.find
      ⟨[1]⟩ = some [⟨[0]⟩, ⟨[0]⟩] := by
  have hspare : ∀ r ∈ reunion, r.Spares id := by
    intro r hr
    simp only [reunion, List.mem_cons, List.not_mem_nil, or_false] at hr
    rcases hr with rfl | rfl | rfl | rfl | rfl
    · trivial
    · trivial
    · exact fun _ _ => rfl
    · trivial
    · trivial
  have hfirst : .empty ⟨[0]⟩ ∈ reunion := by simp [reunion]
  have hsecond : .empty ⟨[1]⟩ ∉ reunion := by simp [reunion]
  obtain ⟨-, htally, hgone, hlist, hadds⟩ := lists_built_once tallyingKind [] reunion
  have hbuilds : (served tallyingKind [] reunion).builds = [⟨[1]⟩, ⟨[0]⟩] := by decide +kernel
  have hshared := htally id ⟨fun _ _ _ => rfl, fun _ _ _ _ _ => rfl⟩ hspare
  rw [hbuilds] at hshared
  refine ⟨hshared, hbuilds, (hgone ⟨[0]⟩ hfirst).1, ?_, hlist ⟨[1]⟩ () hsecond, ?_⟩
  · rw [(hgone ⟨[0]⟩ hfirst).2, hbuilds]
    rfl
  · obtain ⟨hreached, hsame⟩ := hadds ⟨1, ()⟩ ⟨[0]⟩ () ⟨[1]⟩ ()
    have hasked : (served tallyingKind [] reunion).init tallyingKind ⟨[1]⟩ () =
        (served tallyingKind [] reunion, some [⟨[0]⟩]) :=
      init_of_live tallyingKind () (find_eq_some.mp (by decide +kernel))
    rw [hreached.reached _ _ (by rw [hsame hfirst, hasked])]
    rfl

end NeighborIndex

end DensityClustering
