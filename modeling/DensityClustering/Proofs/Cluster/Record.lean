import Mathlib.Algebra.Group.Int.Defs
import DensityClustering.Cluster.Record

/-!
What the operations on one cluster do to its members, its count and its flags. Compression touches
none of these but the flag of its own name.
-/

namespace DensityClustering

namespace Cluster

variable {S : Type} [Scalar S] (threshold : Nat) (k a : Cluster S) (id : ItemId)
  (contact : Contact S)

@[simp] theorem members_compress : (k.compress threshold).members = k.members := by
  unfold compress
  split <;> rfl

@[simp] theorem count_compress : (k.compress threshold).count = k.count := by
  unfold compress
  split <;> rfl

@[simp] theorem finished_compress : (k.compress threshold).finished = k.finished := by
  unfold compress
  split <;> rfl

@[simp] theorem members_reach : (k.reach threshold id contact).members = k.members := by
  unfold reach
  dsimp only
  split
  · rfl
  · exact members_compress ..

/-- An accepted link counts one item. -/
@[simp] theorem count_reach : (k.reach threshold id contact).count = k.count + 1 := by
  unfold reach
  dsimp only
  split
  · rfl
  · rw [count_compress]

@[simp] theorem finished_reach : (k.reach threshold id contact).finished = k.finished := by
  unfold reach
  dsimp only
  split
  · rfl
  · exact finished_compress ..

@[simp] theorem members_absorb :
    (k.absorb threshold a).members = k.members ++ a.members :=
  members_compress ..

@[simp] theorem finished_absorb : (k.absorb threshold a).finished = k.finished :=
  finished_compress ..

/-- The number fits in the 64 bits of a count. -/
def fits (n : Int) : Bool := decide (-2 ^ 63 ≤ n ∧ n < 2 ^ 63)

theorem fits_iff {n : Int} : fits n = true ↔ -2 ^ 63 ≤ n ∧ n < 2 ^ 63 := decide_eq_true_iff

/-- The count of a cluster once it takes over another one, before it is cut to 64 bits. -/
def joinedCount (k a : Cluster S) : Int :=
  k.count.toInt + k.interpolated a + ((k.corners a ∪ a.points).size - (k.corners a).size : Int)

theorem count_absorb : (k.absorb threshold a).count = .ofInt (k.joinedCount a) := by
  have hsum : (k.absorb threshold a).count = k.count + .ofInt (k.interpolated a) +
      .ofInt ((k.corners a ∪ a.points).size - (k.corners a).size : Int) := count_compress ..
  rw [hsum, joinedCount, Int64.ofInt_add, Int64.ofInt_add, Int64.ofInt_toInt]

theorem toInt_count_absorb (h : fits (k.joinedCount a) = true) :
    (k.absorb threshold a).count.toInt = k.joinedCount a := by
  obtain ⟨hlow, hhigh⟩ := fits_iff.mp h
  rw [count_absorb, Int64.toInt_ofInt_of_le hlow hhigh]

theorem toInt_count_reach (h : fits (k.count.toInt + 1) = true) :
    (k.reach threshold id contact).count.toInt = k.count.toInt + 1 := by
  obtain ⟨hlow, hhigh⟩ := fits_iff.mp h
  have hone : (1 : Int64).toInt = 1 := rfl
  rw [count_reach, Int64.toInt_add, hone, Int.bmod_eq_of_le hlow hhigh]

theorem joinedCount_of_mixed (h : (k.compressed && a.compressed) = false) :
    k.joinedCount a =
      k.count.toInt + ((k.corners a ∪ a.points).size - (k.corners a).size : Int) := by
  have hzero : k.interpolated a = 0 := by
    rw [interpolated, h]
    rfl
  rw [joinedCount, hzero, Int.add_zero]

/-- Unless both clusters are compressed, a merge takes nothing from the count. -/
theorem count_le_joinedCount (h : (k.compressed && a.compressed) = false) :
    k.count.toInt ≤ k.joinedCount a := by
  have hgrow : (k.corners a).size ≤ (k.corners a ∪ a.points).size :=
    Std.ExtTreeSet.size_left_le_size_union
  rw [k.joinedCount_of_mixed a h]
  omega

theorem isLive_iff : k.isLive = true ↔ 0 ≤ k.count.toInt :=
  decide_eq_true_iff.trans Int64.le_iff_toInt_le

theorem size_eq : k.size = k.count.toInt.toNat := rfl

theorem isLive_of_size {n : Nat} (hn : 0 < n) (h : n ≤ k.size) : k.isLive = true := by
  rw [isLive_iff]
  rw [size_eq] at h
  omega

theorem count_ofItem (item : ClusterItem S) :
    (ofItem id item).count.toInt = (min item.count largestCount : Nat) := by
  apply Int64.toInt_ofNat_of_lt
  unfold largestCount
  omega

theorem isLive_ofItem (item : ClusterItem S) : (ofItem id item).isLive = true := by
  rw [isLive_iff, count_ofItem]
  exact Int.natCast_nonneg _

theorem size_ofItem (item : ClusterItem S) :
    (ofItem id item).size = min item.count largestCount := by
  rw [size_eq, count_ofItem, Int.toNat_natCast]

end Cluster

end DensityClustering
