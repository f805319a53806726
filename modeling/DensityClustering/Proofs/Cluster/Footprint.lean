import DensityClustering.Proofs.Cluster.Tally
import DensityClustering.Proofs.Geometry.HullVertices

/-!
What a footprint is made of. Beside a cluster stands its supply: the geometry that it began with, and
every point fed to it since. Whenever its raw points were folded into its geometry, its footprint is
the hull of the supply.
-/

namespace DensityClustering

open Hull (Apart Spans)

/-- What a cluster was given: its first geometry, and all points fed to it, in order. -/
structure Supply (S : Type) where
  origin : Option (Geometry S)
  points : List (Coord S)

namespace Supply

variable {S : Type} [Scalar S]

def none : Supply S := ⟨.none, []⟩

/-- The supply of a cluster of one item. -/
def ofItem (id : ItemId) (item : ClusterItem S) : Supply S :=
  ⟨(Cluster.ofItem id item).geometry, (Cluster.ofItem id item).points.toList⟩

def feed (s : Supply S) (points : List (Coord S)) : Supply S := ⟨s.origin, s.points ++ points⟩

def coords (s : Supply S) : List (Coord S) := Geometry.corners s.origin ++ s.points

def hull (s : Supply S) : Option (Geometry S) := DensityClustering.hull s.origin s.points true

theorem coords_feed (s : Supply S) (points : List (Coord S)) :
    (s.feed points).coords = s.coords ++ points :=
  (List.append_assoc ..).symm

end Supply

namespace PointSet

variable {set : PointSet Rat} {p : Coord Rat}

theorem unsigned_eq (p : Coord Rat) : p.unsigned = p := by
  show (⟨p.x + 0, p.y + 0⟩ : Coord Rat) = p
  rw [Rat.add_zero, Rat.add_zero]

theorem mem_addAll (set : PointSet Rat) (points : List (Coord Rat)) :
    p ∈ set.addAll points ↔ p ∈ set ∨ p ∈ points := by
  unfold addAll
  induction points generalizing set with
  | nil => simp only [List.foldl_nil, List.not_mem_nil, or_false]
  | cons q points ih =>
    rw [List.foldl_cons, ih, Std.ExtTreeSet.mem_insert, unsigned_eq,
      Std.LawfulEqCmp.compare_eq_iff_eq, List.mem_cons, eq_comm, or_assoc, or_left_comm]

theorem size_le_addAll (set : PointSet Rat) (points : List (Coord Rat)) :
    set.size ≤ (set.addAll points).size := by
  unfold addAll
  induction points generalizing set with
  | nil => exact Nat.le_refl _
  | cons q points ih => exact Std.ExtTreeSet.size_le_size_insert.trans (ih _)

/-- Points that leave the size as it is were all there before. -/
theorem mem_of_size_addAll {points : List (Coord Rat)}
    (h : (set.addAll points).size = set.size) (hp : p ∈ points) : p ∈ set := by
  induction points generalizing set with
  | nil => cases hp
  | cons q points ih =>
    have hgrown : (set.insert q.unsigned).size ≤ (set.addAll (q :: points)).size :=
      size_le_addAll _ points
    have hq : q ∈ set := by
      rw [h, unsigned_eq, Std.ExtTreeSet.size_insert] at hgrown
      split at hgrown
      · assumption
      · omega
    have hsame : set.insert q.unsigned = set := by
      apply Std.ExtTreeSet.ext_mem
      intro r
      rw [Std.ExtTreeSet.mem_insert, unsigned_eq, Std.LawfulEqCmp.compare_eq_iff_eq]
      refine or_iff_right_of_imp ?_
      rintro rfl
      exact hq
    have hrest : (set.addAll points).size = set.size := by
      have hfold : set.addAll (q :: points) = addAll (set.insert q.unsigned) points := rfl
      rwa [hfold, hsame] at h
    rcases List.mem_cons.mp hp with rfl | hp
    · exact hq
    · exact ih hrest hp

end PointSet

namespace Cluster

variable {k : Cluster Rat} {s : Supply Rat}

/-- The vertices of the geometry, and the raw points. -/
def outline (k : Cluster Rat) : List (Coord Rat) := Geometry.corners k.geometry ++ k.points.toList

/-- The outline of a cluster has every corner of its supply, and a supply without any point is still
as it came. -/
structure MadeOf (k : Cluster Rat) (s : Supply Rat) : Prop where
  spans : Spans k.outline s.coords
  untouched : s.coords = [] → k.geometry = s.origin

theorem madeOf_ofItem (id : ItemId) (item : ClusterItem Rat) :
    (ofItem id item).MadeOf (.ofItem id item) :=
  ⟨.of_mem_iff fun _ => Iff.rfl, fun _ => rfl⟩

namespace MadeOf

/-- The footprint is the hull of the supply. -/
theorem footprint_eq (h : k.MadeOf s) (hapart : Apart s.coords) : k.footprint = s.hull := by
  have hvertices : Hull.vertices k.outline = Hull.vertices s.coords := h.spans.vertices_eq hapart
  have hfootprint : k.footprint = (Geometry.ofHull (Hull.vertices k.outline)).or k.geometry :=
    hull_rebuilt ..
  have hhull : s.hull = (Geometry.ofHull (Hull.vertices s.coords)).or s.origin := hull_rebuilt ..
  rw [hfootprint, hhull, hvertices]
  by_cases hcoords : s.coords = []
  · rw [h.untouched hcoords]
  · obtain ⟨p, hp⟩ := List.exists_mem_of_ne_nil _ hcoords
    obtain ⟨g, hg⟩ := Geometry.exists_ofHull (Hull.vertices_ne_nil hapart hp)
    rw [hg, Option.some_or, Option.some_or]

/-- Folding the raw points keeps every corner. -/
theorem compress (h : k.MadeOf s) (hapart : Apart s.coords) (threshold : Nat) :
    (k.compress threshold).MadeOf s := by
  unfold Cluster.compress
  split
  · exact h
  next hmany =>
  have hpoint : ∃ p, p ∈ k.outline := by
    have hne : k.points.toList ≠ [] := by
      rw [← List.length_pos_iff, Std.ExtTreeSet.length_toList]
      omega
    obtain ⟨p, hp⟩ := List.exists_mem_of_ne_nil _ hne
    exact ⟨p, List.mem_append_right _ hp⟩
  obtain ⟨p, hp⟩ := hpoint
  have hown : Apart k.outline := hapart.of_subset h.spans.subset
  obtain ⟨g, hg, hfolded⟩ := exists_hull_rebuilt hown hp
  rw [hfolded, Option.some_or]
  refine ⟨.trans ?_ ((Spans.of_vertices hown).trans h.spans), fun hnone => ?_⟩
  · refine .of_mem_iff fun q => ?_
    show q ∈ g.coords ++ (∅ : PointSet Rat).toList ↔ _
    rw [List.mem_append, Std.ExtTreeSet.mem_toList, or_iff_left Std.ExtTreeSet.not_mem_empty,
      Geometry.mem_coords_ofHull hg]
    rfl
  · have hin : p ∈ s.coords := h.spans.subset hp
    rw [hnone] at hin
    cases hin

/-- Points that are fed belong to the supply from then on. -/
theorem reach (h : k.MadeOf s) (threshold : Nat) (id : ItemId) (contact : Contact Rat)
    (hapart : Apart (s.feed (k.contactPoints id contact)).coords) :
    (k.reach threshold id contact).MadeOf (s.feed (k.contactPoints id contact)) := by
  have hfed : k.contactPoints id contact ≠ [] := by
    unfold contactPoints
    dsimp only
    split <;> exact nofun
  have huntouched : (s.feed (k.contactPoints id contact)).coords ≠ [] := by
    rw [Supply.coords_feed]
    exact List.append_ne_nil_of_right_ne_nil _ hfed
  have hgrown : Spans (k.outline ++ k.contactPoints id contact)
      (s.feed (k.contactPoints id contact)).coords := by
    rw [Supply.coords_feed]
    exact h.spans.append _
  unfold Cluster.reach
  dsimp only
  split
  · next hsize =>
    -- All points fed were there before.
    refine ⟨.trans (.of_mem_iff fun p => ?_) hgrown, fun hnone => absurd hnone huntouched⟩
    refine (List.mem_append.trans (or_iff_left_of_imp fun hp => ?_)).symm
    exact List.mem_append_right _
      (Std.ExtTreeSet.mem_toList.mpr (PointSet.mem_of_size_addAll hsize hp))
  · have hadded : { k with points := k.points.addAll (k.contactPoints id contact) }.MadeOf
        (s.feed (k.contactPoints id contact)) := by
      refine ⟨.trans (.of_mem_iff fun p => ?_) hgrown, fun hnone => absurd hnone huntouched⟩
      simp only [outline, List.mem_append, Std.ExtTreeSet.mem_toList, PointSet.mem_addAll, or_assoc]
    have hfolded := hadded.compress hapart threshold
    exact ⟨hfolded.spans, hfolded.untouched⟩

end MadeOf

end Cluster

namespace ClusterIndex

/-- An operation that a run performs. -/
def Operation.isOfRun {S : Type} : Operation S → Bool
  | .clear _ => false
  | .merge _ _ => false
  | _ => true

/-- Every operation is one that a run performs. -/
def OfRun {S : Type} (ops : List (Operation S)) : Prop := ∀ op ∈ ops, op.isOfRun = true

theorem ofRun_concat {S : Type} {ops : List (Operation S)} {op : Operation S} :
    OfRun (ops ++ [op]) ↔ OfRun ops ∧ op.isOfRun = true := by
  unfold OfRun
  rw [List.forall_mem_append, List.forall_mem_singleton]

section Supplied

variable {S : Type} [Scalar S]

/-- The supply of a handle after an operation by which nothing is merged: an item that gets the
handle opens it, and an accepted link feeds the points of the contact. -/
def supplyStep (x : ClusterIndex S) (c : ClusterId) (s : Supply S) : Operation S → Supply S
  | .create id item =>
    if x.clusterOf id = none ∧ c = ⟨x.slots.size⟩ then .ofItem id item else s
  | .link d contact id =>
    if c = d ∧ (x.addLink d contact id).2 = true then
      s.feed ((x.cluster? d).elim [] fun k => k.contactPoints id contact)
    else s
  | _ => s

def supplyOps (x : ClusterIndex S) (c : ClusterId) (s : Supply S) : List (Operation S) → Supply S
  | [] => s
  | op :: ops => supplyOps (x.apply op) c (x.supplyStep c s op) ops

/-- The supply of a handle after operations on no clusters. -/
def supply (config : ClusterConfig) (ops : List (Operation S)) (c : ClusterId) : Supply S :=
  (empty config).supplyOps c .none ops

theorem supplyOps_append (x : ClusterIndex S) (c : ClusterId) (s : Supply S)
    (ops rest : List (Operation S)) : x.supplyOps c s (ops ++ rest) =
      (ops.foldl apply x).supplyOps c (x.supplyOps c s ops) rest := by
  induction ops generalizing x s with
  | nil => rfl
  | cons op ops ih => rw [List.cons_append, supplyOps, supplyOps, ih, List.foldl_cons]

theorem supply_concat (config : ClusterConfig) (ops : List (Operation S)) (op : Operation S)
    (c : ClusterId) : supply config (ops ++ [op]) c =
      (after config ops).supplyStep c (supply config ops c) op := by
  unfold supply
  rw [supplyOps_append]
  rfl

end Supplied

/-- The record behind a handle is made of the supply, as long as it is live. -/
def Supplied (x : ClusterIndex Rat) (c : ClusterId) (s : Supply Rat) : Prop :=
  ∀ k, x.cluster? c = some k → k.isLive = true → k.MadeOf s

namespace Supplied

variable {x : ClusterIndex Rat} {c : ClusterId} {s : Supply Rat}

theorem getOrCreate (h : Hull.Apart s.coords → Supplied x c s) (id : ItemId)
    (item : ClusterItem Rat)
    (hapart : Hull.Apart (x.supplyStep c s (.create id item)).coords) :
    Supplied (x.getOrCreate id item).1 c (x.supplyStep c s (.create id item)) := by
  unfold supplyStep at hapart ⊢
  dsimp only at hapart ⊢
  cases hid : x.clusterOf id with
  | some d =>
    rw [hid, if_neg (fun hnew => nomatch hnew.1)] at hapart
    rw [x.getOrCreate_eq_self item hid, if_neg (fun hnew => nomatch hnew.1)]
    exact h hapart
  | none =>
    intro k hk hlive
    rw [x.cluster?_getOrCreate item hid] at hk
    by_cases hc : c = ⟨x.slots.size⟩
    · rw [if_pos hc] at hk
      cases hk
      rw [if_pos ⟨rfl, hc⟩]
      exact Cluster.madeOf_ofItem id item
    · rw [if_neg hc] at hk
      rw [if_neg fun hnew => hc hnew.2] at hapart ⊢
      exact h hapart k hk hlive

theorem addLink (h : Hull.Apart s.coords → Supplied x c s) (hkind : x.config.kind = .preProcess)
    (d : ClusterId) (contact : Contact Rat) (id : ItemId)
    (hapart : Hull.Apart (x.supplyStep c s (.link d contact id)).coords) :
    Supplied (x.addLink d contact id).1 c (x.supplyStep c s (.link d contact id)) := by
  unfold supplyStep at hapart ⊢
  dsimp only at hapart ⊢
  rw [addLink_of_apart hkind] at hapart ⊢
  rcases x.recordLink_cases d contact id with ⟨-, he⟩ | ⟨r, hr, hlive, -, ⟨-, he⟩ | ⟨-, he⟩⟩
  · rw [he, if_neg (fun hnew => nomatch hnew.2)] at hapart ⊢
    exact h hapart
  · rw [he, if_neg (fun hnew => nomatch hnew.2)] at hapart ⊢
    exact h hapart
  · rw [he] at hapart ⊢
    intro k hk hkl
    rw [x.cluster?_relink hr] at hk
    by_cases hc : c = d
    · subst hc
      rw [if_pos rfl] at hk
      cases hk
      rw [if_pos ⟨rfl, rfl⟩, hr, Option.elim_some] at hapart ⊢
      have hbefore : Hull.Apart s.coords := by
        rw [Supply.coords_feed] at hapart
        exact hapart.of_subset (List.subset_append_left ..)
      exact (h hbefore r hr hlive).reach _ id contact hapart
    · rw [if_neg hc] at hk
      rw [if_neg fun hnew => hc hnew.1] at hapart ⊢
      exact h hapart k hk hkl

theorem finish (h : Supplied x c s) (hkind : x.config.kind = .preProcess) (d : ClusterId) :
    Supplied (x.finish d) c s := by
  rw [finish_of_apart hkind]
  intro k hk hlive
  rw [cluster?_modify] at hk
  split at hk
  · next hc =>
    obtain ⟨r, hr, rfl⟩ := Option.map_eq_some_iff.mp hk
    have hmade : r.MadeOf s := h r (hc ▸ hr) hlive
    exact ⟨hmade.spans, hmade.untouched⟩
  · exact h k hk hlive

theorem invalidate (h : Supplied x c s) (d : ClusterId) : Supplied (x.invalidate d) c s := by
  cases hd : x.cluster? d with
  | none =>
    rw [x.invalidate_eq_self hd]
    exact h
  | some r =>
    intro k hk hlive
    rw [x.cluster?_invalidate hd] at hk
    split at hk
    · cases hk
      cases hlive
    · exact h k hk hlive

end Supplied

/-- Where clusters do not merge, every live cluster is made of its supply. -/
theorem supplied_after {config : ClusterConfig} (hkind : config.kind = .preProcess)
    {ops : List (Operation Rat)} (hops : OfRun ops) {c : ClusterId}
    (hapart : Hull.Apart (supply config ops c).coords) :
    Supplied (after config ops) c (supply config ops c) := by
  induction ops using List.reverseRecOn with
  | nil =>
    intro k hk
    rw [after, List.foldl_nil, cluster?_empty] at hk
    cases hk
  | append_singleton ops op ih =>
    have hstate : (after config ops : ClusterIndex Rat).config.kind = .preProcess := by
      rw [config_after, hkind]
    obtain ⟨hprior, hop⟩ := ofRun_concat.mp hops
    have hbefore := ih hprior
    rw [supply_concat] at hapart ⊢
    rw [after_concat]
    cases op with
    | create id item => exact .getOrCreate hbefore id item hapart
    | link d contact id => exact .addLink hbefore hstate d contact id hapart
    | finish d => exact (hbefore hapart).finish hstate d
    | invalidate d => exact (hbefore hapart).invalidate d
    | clear d => cases hop
    | merge into other => cases hop

end ClusterIndex

end DensityClustering
