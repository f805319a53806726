import DensityClustering.Proofs.Cluster.Lifecycle
import DensityClustering.Proofs.Cluster.Reach

/-!
Raw points. There are never more of them than the threshold, whatever brought them in; and they leave
a record only into its geometry, which the record then says, unless they are cleared.
-/

namespace DensityClustering

namespace PointSet

variable {S : Type} [Scalar S]

theorem mem_addAll_of_mem {set : PointSet S} {p : Coord S} (h : p ∈ set) (points : List (Coord S)) :
    p ∈ set.addAll points := by
  unfold addAll
  induction points generalizing set with
  | nil => exact h
  | cons q points ih => exact ih (Std.ExtTreeSet.mem_insert.mpr (Or.inr h))

theorem size_addAll_le (set : PointSet S) (points : List (Coord S)) :
    (set.addAll points).size ≤ set.size + points.length := by
  unfold addAll
  induction points generalizing set with
  | nil => exact Nat.le_refl _
  | cons q points ih =>
    have hone : (set.insert q.unsigned).size ≤ set.size + 1 := Std.ExtTreeSet.size_insert_le
    have hrest := ih (set.insert q.unsigned)
    rw [List.foldl_cons, List.length_cons]
    omega

end PointSet

namespace Cluster

variable {S : Type} [Scalar S] {threshold : Nat} {k k' : Cluster S}

/-- An item brings its centroid at most. -/
theorem size_points_ofItem (id : ItemId) (item : ClusterItem S) :
    (ofItem id item).points.size ≤ 1 := by
  show (if item.geometry.isPoint || item.compressed then
    PointSet.addAll ∅ item.geometry.centroid.toList else ∅ : PointSet S).size ≤ 1
  split
  · have hsize := PointSet.size_addAll_le ∅ item.geometry.centroid.toList
    have hone : item.geometry.centroid.toList.length ≤ 1 := Option.length_toList_le
    rw [Std.ExtTreeSet.size_empty] at hsize
    omega
  · rw [Std.ExtTreeSet.size_empty]
    exact Nat.zero_le 1

/-- Compression brings the raw points below the threshold. -/
theorem size_points_compress (threshold : Nat) (k : Cluster S) :
    (k.compress threshold).points.size ≤ threshold := by
  unfold compress
  split
  · next h => exact h
  · rw [Std.ExtTreeSet.size_empty]
    exact Nat.zero_le threshold

/-- The raw points are as they were, or the record says that they were folded. -/
theorem points_compress (threshold : Nat) (k : Cluster S) :
    (k.compress threshold).compressed = true ∨ (k.compress threshold).points = k.points := by
  unfold compress
  split
  · exact Or.inr rfl
  · exact Or.inl rfl

namespace Step

/-- Every change restores the bound. -/
theorem size_points (h : k.Step threshold k') (hk : k.points.size ≤ threshold) :
    k'.points.size ≤ threshold := by
  cases h with
  | reach id contact hlive =>
    unfold Cluster.reach
    dsimp only
    split
    · exact hk
    · exact size_points_compress ..
  | absorb hlive halive => exact size_points_compress ..
  | finish => exact hk

theorem compressed (h : k.Step threshold k') (hk : k.compressed = true) :
    k'.compressed = true := by
  cases h with
  | reach id contact hlive => exact k.compressed_reach threshold id contact hk
  | absorb hlive halive => exact compressed_compress threshold _ hk
  | finish => exact hk

/-- A raw point stays one unless the record says that its points were folded. -/
theorem mem_points (h : k.Step threshold k') :
    k'.compressed = true ∨ ∀ p ∈ k.points, p ∈ k'.points := by
  cases h with
  | reach id contact hlive =>
    have hadded : ∀ p ∈ k.points, p ∈ k.points.addAll (k.contactPoints id contact) :=
      fun p hp => PointSet.mem_addAll_of_mem hp _
    unfold Cluster.reach
    dsimp only
    split
    · exact Or.inr fun p hp => hp
    · refine (points_compress threshold _).imp_right fun hsame p hp => ?_
      rw [hsame]
      exact hadded p hp
  | @absorb a hlive halive =>
    have hcorners : ∀ p ∈ k.points, p ∈ k.corners a := by
      intro p hp
      unfold corners
      split
      · split
        · exact hp
        · exact PointSet.mem_addAll_of_mem hp _
      · exact hp
    refine (points_compress threshold _).imp_right fun hsame p hp => ?_
    rw [Cluster.absorb, hsame]
    exact Std.ExtTreeSet.mem_union_iff.mpr (Or.inl (hcorners p hp))
  | finish => exact Or.inr fun p hp => hp

end Step

theorem Steps.mem_points (h : k.Steps threshold k') :
    k'.compressed = true ∨ ∀ p ∈ k.points, p ∈ k'.points := by
  refine h.keeps (P := fun r => r.compressed = true ∨ ∀ p ∈ k.points, p ∈ r.points) ?_
    (Or.inr fun p hp => hp)
  rintro r r' hstep (hcompressed | hkept)
  · exact Or.inl (hstep.compressed hcompressed)
  · exact hstep.mem_points.imp_right fun hnext p hp => hnext p (hkept p hp)

end Cluster

namespace ClusterIndex

variable {S : Type} [Scalar S]

theorem rawPointCount_le (config : ClusterConfig) (hpos : 1 ≤ config.compressionThreshold)
    (ops : List (Operation S)) (c : ClusterId) :
    (after config ops : ClusterIndex S).rawPointCount c ≤ config.compressionThreshold := by
  have hempty : (∅ : PointSet S).size ≤ config.compressionThreshold := by
    rw [Std.ExtTreeSet.size_empty]
    exact Nat.zero_le _
  have hall := record_after (P := fun k : Cluster S => k.points.size ≤ config.compressionThreshold)
    config (fun id item => (Cluster.size_points_ofItem id item).trans hpos)
    (fun k k' hstep => hstep.size_points) (fun _ _ => hempty) (fun _ _ => hempty) ops c
  unfold rawPointCount
  cases hk : (after config ops).cluster? c with
  | none => exact Nat.zero_le _
  | some k => exact hall k hk

/-- No handle ever holds more raw points than the threshold, and an operation that neither clears
nor invalidates a handle drops a raw point of its record only if the record is compressed
afterwards. -/
theorem raw_points_bounded (config : ClusterConfig) (hpos : 1 ≤ config.compressionThreshold)
    (ops : List (Operation S)) :
    (∀ c, (after config ops : ClusterIndex S).rawPointCount c ≤ config.compressionThreshold) ∧
    ∀ (op : Operation S) (c : ClusterId) (k k' : Cluster S),
      op ≠ .clear c → op ≠ .invalidate c →
      (after config ops).cluster? c = some k →
      (after config (ops ++ [op])).cluster? c = some k' →
      (∃ p ∈ k.points, p ∉ k'.points) → k'.compressed = true := by
  refine ⟨rawPointCount_le config hpos ops, ?_⟩
  rintro op c k k' hclear hinvalid hk hk' ⟨p, hp, hgone⟩
  rw [after_concat] at hk'
  obtain ⟨r, hr, hsteps | ⟨he, -⟩ | ⟨he, -⟩⟩ :=
    record_apply ((after config ops).issued_of_cluster? hk) hk'
  · obtain rfl : k = r := Option.some.inj (hk.symm.trans hr)
    exact hsteps.mem_points.resolve_right fun hkept => hgone (hkept p hp)
  · exact absurd he hinvalid
  · exact absurd he hclear

/-- With a threshold of one, the second point that reaches a cluster folds the first one. -/
theorem second_point_is_folded :
    let config : ClusterConfig := ⟨1, 1, .merging⟩
    let link : Operation Rat := .link ⟨0⟩ (contactAt 0 1) ⟨[1]⟩
    (after config [pointAt 0]).rawPointCount ⟨0⟩ = 1 ∧
      (after config ([pointAt 0] ++ [link])).rawPointCount ⟨0⟩ = 0 ∧
      (after config ([pointAt 0] ++ [link])).isCompressed ⟨0⟩ = true := by
  intro config link
  have hbefore : ((after config [pointAt 0]).cluster? ⟨0⟩).any
      (fun k => k.points.contains ⟨0, 0⟩) = true := by decide +kernel
  have hafter : ((after config ([pointAt 0] ++ [link])).cluster? ⟨0⟩).any
      (fun k => !k.points.contains ⟨0, 0⟩) = true := by decide +kernel
  obtain ⟨k, hk, hp⟩ := (Option.any_eq_true ..).mp hbefore
  obtain ⟨k', hk', hgone⟩ := (Option.any_eq_true ..).mp hafter
  have hpoint : ∃ p ∈ k.points, p ∉ k'.points := by
    refine ⟨⟨0, 0⟩, Std.ExtTreeSet.mem_iff_contains.mpr hp, fun hmem => ?_⟩
    rw [Std.ExtTreeSet.mem_iff_contains.mp hmem] at hgone
    cases hgone
  have hcompressed : k'.compressed = true :=
    (raw_points_bounded config (by decide) [pointAt 0]).2 link ⟨0⟩ k k' nofun nofun hk hk' hpoint
  refine ⟨by decide +kernel, by decide +kernel, ?_⟩
  rw [isCompressed, hk', Option.any_some]
  exact hcompressed

end ClusterIndex

end DensityClustering
