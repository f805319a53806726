import DensityClustering.Proofs.Cluster.Effect
import DensityClustering.Proofs.Scalar.Scaling

/-!
What a merge of two compressed clusters counts twice. Raw points count in full when they come over,
and the rest of the count as a share of it. That rest is negative when a cluster has more raw points
than it counts, and a share of a negative rest takes back too little. Without such a debt, and as long
as shares are not rounded up, no merge of compressed clusters raises the total count.
-/

namespace DensityClustering

open Scaling (Scales scales_double scales_rational)

/-- No common point is found, or there is no geometry to find one in. -/
def Geometry.Apart {S : Type} [Scalar S] (this other : Option (Geometry S)) : Prop :=
  ∀ g h, this = some g → other = some h →
    ∃ common, h.intersection g = .ok common ∧ common.isEmpty = true

/-- What is apart from a geometry is not covered by it at all. -/
theorem Geometry.Apart.freshShare_eq_one {S : Type} [Scalar S] {this other : Option (Geometry S)}
    (h : Geometry.Apart this other) : Geometry.freshShare this other = (1 : S) := by
  unfold Geometry.freshShare
  split
  · next g h' =>
    obtain ⟨common, hcommon, hempty⟩ := h g h' rfl rfl
    have hpoint : common.isPoint = false := by
      cases common with
      | point p => cases hempty
      | _ => rfl
    rw [hcommon]
    dsimp only
    rw [hpoint, hempty]
    rfl
  · rfl

namespace Cluster

variable {S : Type} [Scalar S] {threshold : Nat} {k a : Cluster S}

/-- The count without the raw points. -/
def interior (k : Cluster S) : Int := k.count.toInt - k.points.size

/-- The raw points of both clusters. -/
def shared (k a : Cluster S) : Nat := (k.points ∩ a.points).size

/-- What the count of a cluster exceeds both counts by once it takes over another compressed one. -/
def surplus (k a : Cluster S) : Int := k.interpolated a - a.interior - k.shared a

theorem corners_of_compressed (h : k.compressed = true) : k.corners a = k.points := by
  unfold corners
  split
  · rw [if_pos h]
  · rfl

theorem joinedCount_of_compressed (h : k.compressed = true) :
    k.joinedCount a = k.count.toInt + a.count.toInt + k.surplus a := by
  have hpoints : k.points.size + a.points.size =
      (k.points ∪ a.points).size + (k.points ∩ a.points).size :=
    Std.ExtTreeSet.size_add_size_eq_size_union_add_size_inter
  rw [joinedCount, corners_of_compressed h]
  unfold surplus interior shared
  omega

theorem interpolated_of_compressed (hk : k.compressed = true) (ha : a.compressed = true) :
    k.interpolated a = Scalar.truncate
      (Geometry.freshShare k.geometry a.geometry * Scalar.ofInt a.interior : S) := by
  rw [interpolated, hk, ha]
  rfl

/-- A share that is in order leaves the surplus between two bounds, and the upper one is not positive
unless the second cluster has more raw points than it counts. -/
theorem surplus_bounds (hk : k.compressed = true) (ha : a.compressed = true)
    (hzero : 0 ≤ (Geometry.freshShare k.geometry a.geometry : S))
    (hone : (Geometry.freshShare k.geometry a.geometry : S) ≤ 1) (hscales : Scales S a.interior) :
    min 0 (-a.interior) - k.shared a ≤ k.surplus a ∧
      k.surplus a ≤ max 0 (-a.interior) - k.shared a := by
  have hshare := hscales.share _ hzero hone
  rw [← interpolated_of_compressed hk ha] at hshare
  unfold surplus
  omega

theorem surplus_of_apart (hk : k.compressed = true) (ha : a.compressed = true)
    (hapart : Geometry.Apart k.geometry a.geometry) (hscales : Scales S a.interior) :
    k.surplus a = -k.shared a := by
  have hwhole : k.interpolated a = a.interior := by
    rw [interpolated_of_compressed hk ha, hapart.freshShare_eq_one]
    exact hscales.whole
  rw [surplus, hwhole]
  omega

end Cluster

namespace ClusterIndex

variable {S : Type} [Scalar S]

/-- The count of all live clusters together. -/
def totalCount (x : ClusterIndex S) : Nat := (x.clusters.map x.size).sum

variable {x y : ClusterIndex S} {into other : ClusterId}

theorem size_of_dead {c : ClusterId} (h : x.isLive c = false) : x.size c = 0 := by
  cases hk : x.cluster? c with
  | none => rw [size, hk, Option.elim_none]
  | some k =>
    have hcount : ¬0 ≤ k.count.toInt := by
      rw [← k.isLive_iff, ← x.isLive_of_cluster? hk, h]
      exact Bool.false_ne_true
    rw [x.size_of_cluster? hk, Cluster.size_eq]
    omega

/-- Handles that are not live add nothing. -/
theorem totalCount_eq_sum (x : ClusterIndex S) : x.totalCount = (x.handles.map x.size).sum := by
  unfold totalCount clusters
  induction x.handles with
  | nil => rfl
  | cons c cs ih =>
    rw [List.map_cons, List.sum_cons, ← ih]
    cases hlive : x.isLive c with
    | true => rw [List.filter_cons_of_pos hlive, List.map_cons, List.sum_cons]
    | false =>
      rw [List.filter_cons_of_neg (by rw [hlive]; exact Bool.false_ne_true), size_of_dead hlive,
        Nat.zero_add]

/-- The total moves with the sizes of two handles if no other size changes. -/
theorem totalCount_of_two (hne : into ≠ other) (hhandles : y.handles = x.handles)
    (hinto : into ∈ x.handles) (hother : other ∈ x.handles)
    (hsize : ∀ d, d ≠ into → d ≠ other → y.size d = x.size d) :
    y.totalCount + (x.size into + x.size other) =
      x.totalCount + (y.size into + y.size other) := by
  have hrest : other ∈ x.handles.erase into := (List.mem_erase_of_ne hne.symm).mpr hother
  have hsplit (f : ClusterId → Nat) : (x.handles.map f).sum =
      f into + (f other + (((x.handles.erase into).erase other).map f).sum) := by
    rw [← List.sum_map_erase f hinto, ← List.sum_map_erase f hrest]
  have hsame : ((x.handles.erase into).erase other).map y.size =
      ((x.handles.erase into).erase other).map x.size := by
    apply List.map_congr_left
    intro d hd
    have hnodup := x.handles_nodup
    obtain ⟨ho, hd⟩ := (hnodup.erase into).mem_erase_iff.mp hd
    exact hsize d (hnodup.mem_erase_iff.mp hd).1 ho
  rw [totalCount_eq_sum, totalCount_eq_sum, hhandles, hsplit x.size, hsplit y.size, hsame]
  omega

/-- A merge of two live compressed clusters counts both counts and the surplus, as long as these fit
in 64 bits together, so that the total count grows exactly if there is one. Shares in order keep the
surplus below what the second cluster has in raw points beyond its count, and leave none if the two
are apart and share no raw point. Shares of all rationals are in order, and those of doubles up to 53
digits. -/
theorem merge_counts_surplus (x : ClusterIndex S) {into other : ClusterId} (hne : into ≠ other)
    (hinto : x.isLive into = true) (hother : x.isLive other = true)
    (hpacked : x.isCompressed into = true) (hpacked' : x.isCompressed other = true) :
    (∃ k a, x.cluster? into = some k ∧ x.cluster? other = some a ∧
      (Cluster.fits (k.count.toInt + a.count.toInt + k.surplus a) = true →
        (x.merge into other).count into = some (k.count.toInt + a.count.toInt + k.surplus a) ∧
        ((x.merge into other).totalCount ≤ x.totalCount ↔ k.surplus a ≤ 0)) ∧
      (Scales S a.interior → 0 ≤ (Geometry.freshShare k.geometry a.geometry : S) →
        (Geometry.freshShare k.geometry a.geometry : S) ≤ 1 →
        min 0 (-a.interior) - k.shared a ≤ k.surplus a ∧
          k.surplus a ≤ max 0 (-a.interior) - k.shared a) ∧
      (Scales S a.interior → Geometry.Apart k.geometry a.geometry → k.shared a = 0 →
        k.surplus a = 0)) ∧
    (∀ n, Scales Rat n) ∧ ∀ n : Int, n.natAbs < 2 ^ 53 → Scales Float n := by
  refine ⟨?_, scales_rational, fun n hn => scales_double hn⟩
  obtain ⟨k, hk, hkl⟩ := x.isLive_iff.mp hinto
  obtain ⟨a, ha, hal⟩ := x.isLive_iff.mp hother
  rw [isCompressed, hk, Option.any_some] at hpacked
  rw [isCompressed, ha, Option.any_some] at hpacked'
  have hm : Merged x into other k a (x.merge into other) := x.merged_merge hne hk hkl ha hal
  have hinto' : (x.merge into other).cluster? into =
      some (k.absorb x.config.compressionThreshold a) := hm.record_into
  refine ⟨k, a, hk, ha, fun hfits => ?_, fun hscales hzero hone => ?_,
    fun hscales hapart hshared => ?_⟩
  · rw [← Cluster.joinedCount_of_compressed hpacked] at hfits ⊢
    have hsum := k.toInt_count_absorb x.config.compressionThreshold a hfits
    refine ⟨?_, ?_⟩
    · rw [count_of_cluster? hinto', hsum]
    -- Only the two handles change their size, and a dead cluster counts as nothing.
    · have htotal := totalCount_of_two hne (handles_congr hm.issued)
        (x.mem_handles.mpr (x.issued_of_cluster? hk)) (x.mem_handles.mpr (x.issued_of_cluster? ha))
        fun d hi ho => size_congr (hm.record_of_ne hi ho)
      have hgone : (x.merge into other).size other = 0 := by
        rw [size, hm.record_other hne, Option.elim_none]
      rw [x.size_of_cluster? hk, x.size_of_cluster? ha, size_of_cluster? _ hinto', hgone,
        Cluster.size_eq, Cluster.size_eq, Cluster.size_eq, hsum,
        Cluster.joinedCount_of_compressed hpacked] at htotal
      have hkpos : 0 ≤ k.count.toInt := k.isLive_iff.mp hkl
      have hapos : 0 ≤ a.count.toInt := a.isLive_iff.mp hal
      omega
  · exact Cluster.surplus_bounds hpacked hpacked' hzero hone hscales
  · rw [Cluster.surplus_of_apart hpacked hpacked' hapart hscales, hshared]
    rfl

def square (low high : Rat) : Geometry Rat :=
  .polygon ⟨⟨[⟨low, low⟩, ⟨high, low⟩, ⟨high, high⟩, ⟨low, high⟩]⟩, []⟩

/-- The summary of a square. -/
def squareAt (n : UInt8) (low high : Rat) (count : Nat) : Operation Rat :=
  .create ⟨[n]⟩ ⟨⟨[n]⟩, square low high, count, true⟩

/-- Two squares far from each other. -/
def squaresApart : List (Operation Rat) := [squareAt 0 0 1 10, squareAt 1 50 51 7]

/-- They add up. -/
theorem merge_counts_surplus_apart :
    ((after ⟨2, 200, .merging⟩ squaresApart).merge ⟨0⟩ ⟨1⟩).count ⟨0⟩ = some 17 ∧
    ((after ⟨2, 200, .merging⟩ squaresApart).merge ⟨0⟩ ⟨1⟩).totalCount ≤
      (after ⟨2, 200, .merging⟩ squaresApart).totalCount := by
  have hne : (⟨0⟩ : ClusterId) ≠ ⟨1⟩ := by decide
  have hlive : (after ⟨2, 200, .merging⟩ squaresApart).isLive ⟨0⟩ = true := by cbv
  have hlive' : (after ⟨2, 200, .merging⟩ squaresApart).isLive ⟨1⟩ = true := by cbv
  have hpacked : (after ⟨2, 200, .merging⟩ squaresApart).isCompressed ⟨0⟩ = true := by cbv
  have hpacked' : (after ⟨2, 200, .merging⟩ squaresApart).isCompressed ⟨1⟩ = true := by cbv
  obtain ⟨⟨k, a, hk, ha, hcounts, -, hapart⟩, hscales, -⟩ :=
    merge_counts_surplus (after ⟨2, 200, .merging⟩ squaresApart) hne hlive hlive' hpacked hpacked'
  have hrecord : (after ⟨2, 200, .merging⟩ squaresApart).cluster? ⟨0⟩ = some
      (.ofItem ⟨[0]⟩ ⟨⟨[0]⟩, square 0 1, 10, true⟩) := by rfl
  have hrecord' : (after ⟨2, 200, .merging⟩ squaresApart).cluster? ⟨1⟩ = some
      (.ofItem ⟨[1]⟩ ⟨⟨[1]⟩, square 50 51, 7, true⟩) := by rfl
  rw [hrecord, Option.some.injEq] at hk
  rw [hrecord', Option.some.injEq] at ha
  subst hk ha
  have hsurplus := hapart (hscales _) ?_ ?_
  · rw [hsurplus] at hcounts
    obtain ⟨hcount, htotal⟩ := hcounts (by cbv)
    rw [hcount, htotal]
    exact ⟨by cbv, le_rfl⟩
  · intro g h hg hh
    cases hg
    cases hh
    exact ⟨.empty, by cbv, rfl⟩
  · cbv

/-- A square that counts ten, and one inside it that counts one, and is linked to a point. -/
def coveredSquare : List (Operation Rat) :=
  [squareAt 0 0 10 10, squareAt 1 1 3 1, .link ⟨1⟩ ⟨⟨3, 2⟩, ⟨[1]⟩, ⟨4, 2⟩, ⟨[2]⟩⟩ ⟨[2]⟩]

/-- The outer square covers the inner one, which counts two, and yet counts three more once it takes
the inner one over. -/
theorem merge_of_covered_square_overcounts :
    ((after ⟨2, 200, .merging⟩ coveredSquare).isLive ⟨0⟩ = true ∧
      (after ⟨2, 200, .merging⟩ coveredSquare).isLive ⟨1⟩ = true ∧
      (after ⟨2, 200, .merging⟩ coveredSquare).isCompressed ⟨0⟩ = true ∧
      (after ⟨2, 200, .merging⟩ coveredSquare).isCompressed ⟨1⟩ = true) ∧
    Geometry.freshShare ((after ⟨2, 200, .merging⟩ coveredSquare).geometry ⟨0⟩)
      ((after ⟨2, 200, .merging⟩ coveredSquare).geometry ⟨1⟩) = (0 : Rat) ∧
    (after ⟨2, 200, .merging⟩ coveredSquare).count ⟨0⟩ = some 10 ∧
    (after ⟨2, 200, .merging⟩ coveredSquare).count ⟨1⟩ = some 2 ∧
    (after ⟨2, 200, .merging⟩ coveredSquare).totalCount = 12 ∧
    ((after ⟨2, 200, .merging⟩ coveredSquare).merge ⟨0⟩ ⟨1⟩).count ⟨0⟩ = some 13 ∧
    ((after ⟨2, 200, .merging⟩ coveredSquare).merge ⟨0⟩ ⟨1⟩).totalCount = 13 := by
  refine ⟨⟨?_, ?_, ?_, ?_⟩, ?_, ?_, ?_, ?_, ?_, ?_⟩
  all_goals cbv

end ClusterIndex

end DensityClustering
