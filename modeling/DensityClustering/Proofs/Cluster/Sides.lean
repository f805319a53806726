import Mathlib.Data.List.Forall2
import DensityClustering.Cluster.NeighborList
import DensityClustering.Neighbor.Index
import DensityClustering.Proofs.Cluster.Operation

/-!
The two sides of a contact. Which of its items comes first says from which side it was measured, and
nothing else: a cluster that is linked to one of two different items takes the same points from the
contact and from its other side, so that the one contact serves both items' clusters.
-/

namespace DensityClustering

variable {S : Type} [Scalar S]

namespace Contact

/-- One of the two items of a contact, which differ. -/
def Joins (contact : Contact S) (id : ItemId) : Prop :=
  contact.firstItem ≠ contact.secondItem ∧ (id = contact.firstItem ∨ id = contact.secondItem)

end Contact

variable {contact : Contact S} {id : ItemId}

namespace Cluster

/-- The points of a contact go by the item they belong to. -/
theorem contactPoints_swap (h : contact.Joins id) (k : Cluster S) :
    k.contactPoints id contact.swap = k.contactPoints id contact := by
  obtain ⟨hitems, rfl | rfl⟩ := h
  · have hother : contact.secondItem ≠ contact.firstItem := hitems.symm
    simp only [contactPoints, Contact.swap, hother, if_true, if_false]
  · simp only [contactPoints, Contact.swap, hitems, if_true, if_false]

theorem reach_swap (h : contact.Joins id) (threshold : Nat) (k : Cluster S) :
    k.reach threshold id contact.swap = k.reach threshold id contact := by
  unfold reach
  rw [contactPoints_swap h]

end Cluster

namespace ClusterIndex

theorem recordLink_swap (h : contact.Joins id) (x : ClusterIndex S) (c : ClusterId) :
    x.recordLink c contact.swap id = x.recordLink c contact id := by
  unfold recordLink
  simp only [Cluster.reach_swap h]

theorem addLink_swap (h : contact.Joins id) (x : ClusterIndex S) (c : ClusterId) :
    x.addLink c contact.swap id = x.addLink c contact id := by
  unfold addLink
  rw [recordLink_swap h]

/-- The same operation, or a link by the other side of its contact. -/
inductive Operation.Turned : Operation S → Operation S → Prop where
  | same (op : Operation S) : Turned op op
  | swap (c : ClusterId) (contact : Contact S) (id : ItemId) (h : contact.Joins id) :
    Turned (.link c contact id) (.link c contact.swap id)

theorem apply_turned {op turned : Operation S} (h : op.Turned turned) (x : ClusterIndex S) :
    x.apply turned = x.apply op := by
  cases h with
  | same => rfl
  | swap c contact id h => exact congrArg Prod.fst (addLink_swap h x c)

/-- From which side each contact was measured does not show in the clusters. -/
theorem after_turned (config : ClusterConfig) {ops turned : List (Operation S)}
    (h : List.Forall₂ Operation.Turned ops turned) : after config turned = after config ops := by
  unfold after
  generalize (ClusterIndex.empty config : ClusterIndex S) = x
  induction h generalizing x with
  | nil => rfl
  | cons hop _ ih => rw [List.foldl_cons, List.foldl_cons, apply_turned hop, ih]

end ClusterIndex

namespace NeighborIndex

variable {σ V C L : Type} {kind : ListKind σ V C L} {index : NeighborIndex σ L}
  {profile profile' : DistanceProfile C} {center neighbor : ItemId} {v u : V}

/-- Profiles that the lists take alike are alike in an offer. -/
theorem offer_congr (h : ∀ list shared, kind.add list profile' neighbor u shared =
    kind.add list profile neighbor u shared) :
    index.offer kind profile' center v neighbor u =
      index.offer kind profile center v neighbor u := by
  unfold offer
  simp only [h]

end NeighborIndex

theorem ClusterList.add_swap (h : contact.Joins id) (l : ClusterList) (x : ClusterIndex S) :
    l.add x contact.swap id = l.add x contact id := by
  unfold add
  simp only [ClusterIndex.addLink_swap h]

theorem ClusterList.kind_add_swap (h : contact.Joins id) (distance : Float) (l : ClusterList)
    (item : ClusterItem S) (x : ClusterIndex S) :
    kind.add l ⟨distance, contact.swap⟩ id item x = kind.add l ⟨distance, contact⟩ id item x := by
  show ((l.add x contact.swap id).2, l, (l.add x contact.swap id).1) = _
  rw [add_swap h]
  rfl

/-- A contact of two different items may be used from either side. Whichever cluster is linked to
one of the items, the answer and the clusters are the same; so are the clusters after any
operations, and the lists of both items when the one contact is offered to both. -/
theorem contact_serves_either_side :
    (∀ (x : ClusterIndex S) (c : ClusterId) (contact : Contact S) (id : ItemId),
      contact.Joins id → x.addLink c contact.swap id = x.addLink c contact id) ∧
    (∀ (config : ClusterConfig) (ops turned : List (ClusterIndex.Operation S)),
      List.Forall₂ ClusterIndex.Operation.Turned ops turned →
        ClusterIndex.after config turned = ClusterIndex.after config ops) ∧
    ∀ (lists : NeighborIndex (ClusterIndex S) ClusterList) (distance : Float)
      (contact : Contact S) (first second : ClusterItem S) (reciprocal : Bool),
      contact.firstItem ≠ contact.secondItem →
        lists.add ClusterList.kind ⟨distance, contact.swap⟩ contact.firstItem first
            contact.secondItem second reciprocal =
          lists.add ClusterList.kind ⟨distance, contact⟩ contact.firstItem first
            contact.secondItem second reciprocal := by
  refine ⟨fun x c contact id h => ClusterIndex.addLink_swap h x c,
    fun config ops turned h => ClusterIndex.after_turned config h, ?_⟩
  intro lists distance contact first second reciprocal hitems
  have hfirst : contact.Joins contact.firstItem := ⟨hitems, Or.inl rfl⟩
  have hsecond : contact.Joins contact.secondItem := ⟨hitems, Or.inr rfl⟩
  unfold NeighborIndex.add
  rw [NeighborIndex.offer_congr fun list => ClusterList.kind_add_swap hsecond distance list second]
  simp only [NeighborIndex.offer_congr fun list =>
    ClusterList.kind_add_swap hfirst distance list first]

namespace ClusterIndex

/-- Two bars with a gap between them. -/
def twoBars : List (Operation Rat) :=
  [.create ⟨[0]⟩ ⟨⟨[0]⟩, .line ⟨0, 0⟩ ⟨1, 0⟩, 1, false⟩,
    .create ⟨[1]⟩ ⟨⟨[1]⟩, .line ⟨3, 0⟩ ⟨4, 0⟩, 1, false⟩]

/-- The contact across the gap, measured from the left bar. -/
def acrossGap : Contact Rat := ⟨⟨1, 0⟩, ⟨[0]⟩, ⟨3, 0⟩, ⟨[1]⟩⟩

/-- The right bar, linked to the left one by the contact that was measured from there, takes both of
its points, as it does by the other side of the contact; and so do both bars' lists. -/
theorem gap_is_the_same_from_the_right :
    acrossGap.Joins ⟨[0]⟩ ∧
    (((after ⟨2, 200, .merging⟩ twoBars).addLink ⟨1⟩ acrossGap ⟨[0]⟩).1.cluster? ⟨1⟩).map
      (fun k => k.points.toList) = some [⟨1, 0⟩, ⟨3, 0⟩] ∧
    (after ⟨2, 200, .merging⟩ twoBars).addLink ⟨1⟩ acrossGap.swap ⟨[0]⟩ =
      (after ⟨2, 200, .merging⟩ twoBars).addLink ⟨1⟩ acrossGap ⟨[0]⟩ ∧
    after ⟨2, 200, .merging⟩ (twoBars ++ [.link ⟨1⟩ acrossGap.swap ⟨[0]⟩]) =
      after ⟨2, 200, .merging⟩ (twoBars ++ [.link ⟨1⟩ acrossGap ⟨[0]⟩]) ∧
    ∀ left right : ClusterItem Rat,
      (NeighborIndex.start (after ⟨2, 200, .merging⟩ twoBars)).add ClusterList.kind
          ⟨2, acrossGap.swap⟩ ⟨[0]⟩ left ⟨[1]⟩ right true =
        (NeighborIndex.start (after ⟨2, 200, .merging⟩ twoBars)).add ClusterList.kind
          ⟨2, acrossGap⟩ ⟨[0]⟩ left ⟨[1]⟩ right true := by
  have hitems : acrossGap.firstItem ≠ acrossGap.secondItem := by decide
  have hjoins : acrossGap.Joins ⟨[0]⟩ := ⟨hitems, Or.inl rfl⟩
  have hturned : List.Forall₂ Operation.Turned (twoBars ++ [.link ⟨1⟩ acrossGap ⟨[0]⟩])
      (twoBars ++ [.link ⟨1⟩ acrossGap.swap ⟨[0]⟩]) :=
    .cons (.same _) (.cons (.same _) (.cons (.swap _ _ _ hjoins) .nil))
  obtain ⟨hlink, hafter, hlists⟩ := contact_serves_either_side (S := Rat)
  exact ⟨hjoins, by decide +kernel, hlink _ _ _ _ hjoins, hafter _ _ _ hturned,
    fun left right => hlists _ _ acrossGap left right true hitems⟩

end ClusterIndex

end DensityClustering
