import DensityClustering.Proofs.Neighbor.Roaming

/-!
A traversal knows its collaborators only by what they answer. When the shared state of one set of
collaborators is an image of the state of another, and both answer alike, the traversals agree.
-/

namespace DensityClustering

variable {P V σ τ C L : Type}

/-- `c` answers from the image of the shared state as `c'` does from the state itself. -/
structure Simulates (π : τ → σ) (c' : Collaborators τ V C L) (c : Collaborators σ V C L) :
    Prop where
  build : ∀ id v s, c.lists.build id v (π s) =
    ((c'.lists.build id v s).1, π (c'.lists.build id v s).2)
  add : ∀ l p id v s, c.lists.add l p id v (π s) =
    ((c'.lists.add l p id v s).1, (c'.lists.add l p id v s).2.1, π (c'.lists.add l p id v s).2.2)
  infer : ∀ l id v s, c.lists.infer l id v (π s) = c'.lists.infer l id v s
  measure : ∀ a b s, c.measure a b (π s) = ((c'.measure a b s).1, π (c'.measure a b s).2)
  complete : ∀ id v l s, c.complete id v l (π s) =
    ((c'.complete id v l s).1, π (c'.complete id v l s).2)

/-- The lists over an image of the shared state. -/
def NeighborIndex.image (π : τ → σ) (index : NeighborIndex τ L) : NeighborIndex σ L :=
  ⟨π index.shared, index.slots, index.journal⟩

/-- The walk over an image of the shared state. -/
def Walk.image (π : τ → σ) (w : Walk τ L) : Walk σ L := ⟨w.lists.image π, w.pending⟩

/-- The visit over an image of the shared state. -/
def Scan.image (π : τ → σ) (s : Scan τ L) : Scan σ L := ⟨s.walk.image π, s.distance, s.farthest⟩

/-- The outcome over an image of the shared state. -/
def Outcome.image (π : τ → σ) (o : Outcome τ L) : Outcome σ L := ⟨π o.shared, o.journal, o.failure⟩

section Image

variable (π : τ → σ) (index : NeighborIndex τ L)

@[simp] theorem NeighborIndex.image_shared : (index.image π).shared = π index.shared := rfl

@[simp] theorem NeighborIndex.image_slots : (index.image π).slots = index.slots := rfl

@[simp] theorem NeighborIndex.image_find (id : ItemId) :
    (index.image π).find id = index.find id := rfl

end Image

namespace Simulates

variable {π : τ → σ} {c' : Collaborators τ V C L} {c : Collaborators σ V C L}

theorem init (h : Simulates π c' c) (index : NeighborIndex τ L) (id : ItemId) (v : V) :
    (index.image π).init c.lists id v =
      ((index.init c'.lists id v).1.image π, (index.init c'.lists id v).2) := by
  have hbuild := h.build id v index.shared
  cases hslot : index.slots[id]? with
  | none =>
    simp only [NeighborIndex.init, NeighborIndex.image_slots, hslot, NeighborIndex.image_shared,
      hbuild]
    rfl
  | some slot =>
    cases slot with
    | live list => simp only [NeighborIndex.init, NeighborIndex.image_slots, hslot]
    | emptied => simp only [NeighborIndex.init, NeighborIndex.image_slots, hslot]

theorem lists_infer (h : Simulates π c' c) (index : NeighborIndex τ L) (center neighbor : ItemId)
    (v : V) : (index.image π).infer c.lists center neighbor v =
      index.infer c'.lists center neighbor v := by
  simp only [NeighborIndex.infer, NeighborIndex.image_find, NeighborIndex.image_shared, h.infer]

theorem offer (h : Simulates π c' c) (index : NeighborIndex τ L) (profile : DistanceProfile C)
    (center : ItemId) (centerValue : V) (neighbor : ItemId) (neighborValue : V) :
    (index.image π).offer c.lists profile center centerValue neighbor neighborValue =
      ((index.offer c'.lists profile center centerValue neighbor neighborValue).1.image π,
        (index.offer c'.lists profile center centerValue neighbor neighborValue).2) := by
  unfold NeighborIndex.offer
  rw [h.init]
  cases index.init c'.lists center centerValue with
  | mk index list =>
    cases list with
    | none => rfl
    | some list =>
      have hadd := h.add list profile neighbor neighborValue index.shared
      simp only [NeighborIndex.image_shared, hadd]
      rfl

theorem lists_add (h : Simulates π c' c) (index : NeighborIndex τ L) (profile : DistanceProfile C)
    (center : ItemId) (centerValue : V) (neighbor : ItemId) (neighborValue : V)
    (reciprocal : Bool) :
    (index.image π).add c.lists profile center centerValue neighbor neighborValue reciprocal =
      ((index.add c'.lists profile center centerValue neighbor neighborValue reciprocal).1.image π,
        (index.add c'.lists profile center centerValue neighbor neighborValue reciprocal).2) := by
  unfold NeighborIndex.add
  dsimp only
  rw [h.offer]
  cases reciprocal with
  | false => rfl
  | true =>
    simp only [if_true]
    rw [h.offer]

theorem consider (h : Simulates π c' c) (g : Group V) (center : ItemId) (centerValue : V)
    (neighbor : ItemId) (s : Scan τ L) :
    g.consider c center centerValue neighbor (s.image π) =
      ((g.consider c' center centerValue neighbor s).1.image π,
        (g.consider c' center centerValue neighbor s).2) := by
  have hpending : (s.image π).walk.pending = s.walk.pending := rfl
  have hlists : (s.image π).walk.lists = s.walk.lists.image π := rfl
  cases hc : g.candidate s.walk.pending neighbor with
  | none => simp only [Group.consider, hpending, hc]
  | some found =>
    obtain ⟨value, isPrimary⟩ := found
    cases hi : s.walk.lists.infer c'.lists center neighbor value with
    | skip => simp only [Group.consider, hpending, hlists, hc, h.lists_infer, hi]
    | remove =>
      simp only [Group.consider, hpending, hlists, hc, h.lists_infer, hi]
      rfl
    | none =>
      have hmeasure := h.measure centerValue value s.walk.lists.shared
      cases hm : c'.measure centerValue value s.walk.lists.shared with
      | mk outcome shared =>
        rw [hm] at hmeasure
        cases outcome with
        | error e =>
          simp only [Group.consider, hpending, hlists, hc, h.lists_infer, hi,
            NeighborIndex.image_shared, hmeasure, hm]
          rfl
        | ok profile =>
          have hadd := h.lists_add
            ({ s.walk.lists with shared := shared }.note (.measured center neighbor)) profile center
            centerValue neighbor value isPrimary
          have hnote : ({ s.walk.lists.image π with shared := π shared } : NeighborIndex σ L).note
              (.measured center neighbor) = ({ s.walk.lists with shared := shared }.note
                (.measured center neighbor)).image π := rfl
          have hdistance : (s.image π).distance = s.distance := rfl
          by_cases hnear : profile.distance ≤ g.maxDistance
          · simp only [Group.consider, hpending, hlists, hc, h.lists_infer, hi, hnear, if_true,
              NeighborIndex.image_shared, hmeasure, hm, hnote, hadd, hdistance]
            split <;> rfl
          · simp only [Group.consider, hpending, hlists, hc, h.lists_infer, hi, hnear, if_false,
              NeighborIndex.image_shared, hmeasure, hm, hnote, hdistance]
            split <;> rfl

theorem scan (h : Simulates π c' c) (g : Group V) (center : ItemId) (centerValue : V)
    (neighbors : List ItemId) (s : Scan τ L) :
    g.scan c center centerValue neighbors (s.image π) =
      ((g.scan c' center centerValue neighbors s).1.image π,
        (g.scan c' center centerValue neighbors s).2) := by
  induction neighbors generalizing s with
  | nil => rfl
  | cons n rest ih =>
    unfold Group.scan
    rw [h.consider]
    cases g.consider c' center centerValue n s with
    | mk s' failure =>
      cases failure with
      | some e => rfl
      | none => exact ih s'

theorem finish (h : Simulates π c' c) (center : ItemId) (value : V) (w : Walk τ L) :
    Group.finish c center value (w.image π) =
      ((Group.finish c' center value w).1.image π, (Group.finish c' center value w).2) := by
  have hlists : (w.image π).lists = w.lists.image π := rfl
  cases hf : w.lists.find center with
  | none =>
    simp only [Group.finish, hlists, NeighborIndex.image_find, hf]
    rfl
  | some list =>
    have hcomplete := h.complete center value list w.lists.shared
    cases hc : c'.complete center value list w.lists.shared with
    | mk outcome shared =>
      rw [hc] at hcomplete
      cases outcome with
      | error e =>
        simp only [Group.finish, hlists, NeighborIndex.image_find, NeighborIndex.image_shared, hf,
          hc, hcomplete]
        rfl
      | ok u =>
        simp only [Group.finish, hlists, NeighborIndex.image_find, NeighborIndex.image_shared, hf,
          hc, hcomplete]
        rfl

theorem visit (h : Simulates π c' c) (g : Group V) (w : Walk τ L) (center : ItemId) :
    g.visit c (w.image π) center =
      ((g.visit c' w center).1.image π, (g.visit c' w center).2) := by
  have hlists : (w.image π).lists = w.lists.image π := rfl
  cases hp : g.index.primary center with
  | none =>
    simp only [Group.visit, hp]
    rfl
  | some value =>
    have hinit := h.init w.lists center value
    cases hi : w.lists.init c'.lists center value with
    | mk lists list =>
      rw [hi] at hinit
      cases list with
      | none =>
        simp only [Group.visit, hp, hlists, hinit, hi]
        rfl
      | some list =>
        have hscan := h.scan g center value (g.neighbors center)
          ⟨⟨lists, w.pending.erase center⟩, 0, none⟩
        have hstart : (⟨{ w.image π with
            pending := (w.image π).pending.erase center, lists := lists.image π }, 0, none⟩ :
              Scan σ L) =
            Scan.image π ⟨⟨lists, w.pending.erase center⟩, 0, none⟩ := rfl
        cases hs : g.scan c' center value (g.neighbors center)
            ⟨⟨lists, w.pending.erase center⟩, 0, none⟩ with
        | mk s failure =>
          rw [hs] at hscan
          cases failure with
          | some e =>
            simp only [Group.visit, hp, hlists, hinit, hi, hstart, hscan, hs]
            rfl
          | none =>
            have hfinish := h.finish center value s.walk
            have hwalk : (s.image π).walk = s.walk.image π := rfl
            cases hf : Group.finish c' center value s.walk with
            | mk after failure =>
              rw [hf] at hfinish
              cases failure with
              | some e =>
                simp only [Group.visit, hp, hlists, hinit, hi, hstart, hscan, hs, hwalk, hfinish,
                  hf]
              | none =>
                simp only [Group.visit, hp, hlists, hinit, hi, hstart, hscan, hs, hwalk, hfinish,
                  hf]
                rfl

theorem roam (h : Simulates π c' c) (g : Group V) (w : Walk τ L) (next : Option ItemId) :
    g.roam c (w.image π) next = ((g.roam c' w next).1.image π, (g.roam c' w next).2) := by
  have hsmallest : ∀ w : Walk τ L, (w.image π).smallest = w.smallest := fun _ => rfl
  have hpending : ∀ w : Walk τ L, (w.image π).pending = w.pending := fun _ => rfl
  -- The two walks take the same branch at every step.
  induction w, next using Group.roam.induct g c' with
  | case1 w next hnone =>
    rw [g.roam_of_none c' hnone, g.roam_of_none c (by rwa [hsmallest])]
  | case2 w next center hnext hmem after cause hvisit =>
    have himage := h.visit g w center
    rw [hvisit] at himage
    rw [g.roam_of_error c' hnext hmem hvisit,
      g.roam_of_error c (by rwa [hsmallest]) (by rwa [hpending]) himage]
  | case3 w next center hnext hmem after farthest hvisit ih =>
    have himage := h.visit g w center
    rw [hvisit] at himage
    rw [g.roam_of_ok c' hnext hmem hvisit,
      g.roam_of_ok c (by rwa [hsmallest]) (by rwa [hpending]) himage, ih]
  | case4 w next center hnext hmem =>
    rw [g.roam_of_not_mem c' hnext hmem,
      g.roam_of_not_mem c (by rwa [hsmallest]) (by rwa [hpending])]

theorem traverse (h : Simulates π c' c) (g : Group V) (shared : τ) :
    g.traverse c (π shared) = (g.traverse c' shared).image π := by
  unfold Group.traverse
  dsimp only
  have hroam := h.roam g ⟨.start shared, Std.ExtTreeSet.ofList g.index.primaryIds⟩
    (g.first.filter fun id => (Std.ExtTreeSet.ofList g.index.primaryIds).contains id)
  dsimp only [Walk.image, NeighborIndex.image, NeighborIndex.start] at hroam ⊢
  rw [hroam]
  rfl

end Simulates

end DensityClustering
